import Mathlib.Data.List.Forall2
import MarkupTemplate.Proofs.Markup.Unroll

/-!
Scopes that differ in nothing but their texts. A template fails in both of them with the same
error or in neither, and in both it comes to the same tags with the same attributes.
-/

namespace MarkupTemplate

-- The same variants at every depth, and lists of the same lengths.
inductive Value.SameShape : Value → Value → Prop where
  | text (s s' : String) : SameShape (.text s) (.text s')
  | markup (s s' : String) : SameShape (.markup s) (.markup s')
  | list {vs vs' : List Value} : List.Forall₂ SameShape vs vs' → SameShape (.list vs) (.list vs')

def Scope.SameShape (s s' : Scope) : Prop :=
  ∀ x, Option.Rel Value.SameShape (s.get? x) (s'.get? x)

theorem Scope.SameShape.bind {s s' : Scope} (h : s.SameShape s') {v v' : Value}
    (hv : v.SameShape v') (x : String) : (s.bind x v).SameShape (s'.bind x v') := by
  intro y
  rw [get?_bind, get?_bind]
  split
  case isTrue  => exact .some hv
  case isFalse => exact h y

-- Both fail with the same error, or both succeed with results that `r` relates.
def Agree {ε α : Type} (r : α → α → Prop) : Except ε α → Except ε α → Prop
  | .ok a, .ok b       => r a b
  | .error e, .error f => e = f
  | _, _               => False

namespace Agree

variable {ε α β : Type} {r : α → α → Prop} {q : β → β → Prop} {x y : Except ε α}

theorem bind {f g : α → Except ε β} (h : Agree r x y) (hf : ∀ a b, r a b → Agree q (f a) (g b)) :
    Agree q (x >>= f) (y >>= g) := by
  match x, y with
  | .ok a, .ok b       => exact hf a b h
  | .error e, .error f => exact h

theorem blame {ι : Type} {site : ι} {x y : Except EvaluationError.Cause α} (h : Agree r x y) :
    Agree r (EvaluationError.blame site x) (EvaluationError.blame site y) := by
  match x, y with
  | .ok a, .ok b       => exact h
  | .error e, .error f =>
    have eq : e = f := h
    exact congrArg (EvaluationError.mk · site) eq

theorem mapM {γ : Type} {p : γ → γ → Prop} {f g : γ → Except ε β} {as bs : List γ}
    (h : List.Forall₂ p as bs) (hf : ∀ a b, p a b → Agree q (f a) (g b)) :
    Agree (List.Forall₂ q) (as.mapM f) (bs.mapM g) := by
  induction h with
  | nil => exact .nil
  | cons hab _ ih =>
    simp only [List.mapM_cons]
    exact (hf _ _ hab).bind fun _ _ hcd => ih.bind fun _ _ rest => .cons hcd rest

end Agree

namespace Value.SameShape

variable {v v' : Value}

theorem asText (h : v.SameShape v') : Agree (fun _ _ => True) v.asText v'.asText := by
  cases h <;> trivial

theorem asHtml (h : v.SameShape v') : Agree (fun _ _ => True) v.asHtml v'.asHtml := by
  cases h <;> trivial

theorem asList (h : v.SameShape v') : Agree (List.Forall₂ SameShape) v.asList v'.asList := by
  cases h with
  | list h        => exact h
  | text | markup => rfl

end Value.SameShape

namespace Tree

variable {ι : Type} {t : Tree ι} {scope scope' : Scope}

theorem agree_find (h : scope.SameShape scope') (x : String) :
    Agree Value.SameShape (scope.find x) (scope'.find x) := by
  have related := h x
  rw [Scope.find, Scope.find]
  generalize scope.get? x = bound at related ⊢
  generalize scope'.get? x = bound' at related ⊢
  cases related with
  | some hv => exact hv
  | none    => rfl

theorem agree_attributes {as : List (String × Tree ι)} (ih : ∀ a ∈ as,
      Agree Value.SameShape (a.2.evaluate scope) (a.2.evaluate scope')) :
    Agree (fun _ _ => True) (evaluateAttributes as scope) (evaluateAttributes as scope') := by
  induction as with
  | nil => trivial
  | cons a as ih' =>
    have ⟨ha, has⟩ := List.forall_mem_cons.mp ih
    simp only [evaluateAttributes]
    exact ha.bind fun _ _ hv => hv.asText.blame.bind fun _ _ _ =>
      (ih' has).bind fun _ _ _ => trivial

theorem agree_body {ts : List (Tree ι)} (ih : ∀ t ∈ ts,
      Agree Value.SameShape (t.evaluate scope) (t.evaluate scope')) :
    Agree (fun _ _ => True) (evaluateBody ts scope) (evaluateBody ts scope') := by
  induction ts with
  | nil => trivial
  | cons t ts ih' =>
    have ⟨ht, hts⟩ := List.forall_mem_cons.mp ih
    simp only [evaluateBody]
    exact ht.bind fun _ _ hv => hv.asHtml.blame.bind fun _ _ _ =>
      (ih' hts).bind fun _ _ _ => trivial

theorem agree_evaluate (h : scope.SameShape scope') :
    Agree Value.SameShape (t.evaluate scope) (t.evaluate scope') := by
  induction t generalizing scope scope' with
  | var site x =>
    simp only [evaluate]
    exact (agree_find h x).blame
  | element site tag attributes body ihA ihB =>
    simp only [evaluate]
    exact (agree_body fun t ht => ihB t ht h).bind fun _ _ _ =>
      (agree_attributes fun a ha => ihA a ha h).bind fun _ _ _ => .markup ..
  | loop site binder collection body ihC ihB =>
    simp only [evaluate]
    exact (ihC h).bind fun _ _ hv => hv.asList.blame.bind fun _ _ items =>
      (Agree.mapM items fun v v' hv => agree_body fun t ht => ihB t ht (h.bind hv binder)).bind
        fun _ _ _ => .markup ..

end Tree

-- What is left of tags without the values of their attributes.
def Tag.outline (t : Tag) : Bool × String × List String :=
  (t.closing, t.name, t.attributes.map (·.1))

def Document.outline (d : Document) : List (Bool × String × List String) :=
  d.tags.map (·.1.outline)

namespace Piece

def outline : List Piece → List (Bool × String × List String)
  | []            => []
  | .text _ :: ps => outline ps
  | .tag t :: ps  => t.outline :: outline ps

theorem outline_append (ps qs : List Piece) : outline (ps ++ qs) = outline ps ++ outline qs := by
  induction ps with
  | nil => rfl
  | cons p ps ih => cases p <;> simp [outline, ih]

theorem outline_ofPieces (ps : List Piece) : (Document.ofPieces ps).outline = outline ps := by
  induction ps with
  | nil => rfl
  | cons p ps ih =>
    cases p with
    | text => exact ih
    | tag t => exact congrArg (t.outline :: ·) ih

end Piece

theorem Document.outline_mapText (f : List Char → List Char) (d : Document) :
    (d.mapText f).outline = d.outline := by
  simp [outline, mapText]

namespace Tree

variable {ι : Type} {t : Tree ι} {scope scope' : Scope} {ps ps' : List Piece}

theorem names_of_unrollAttributes {as : List (String × Tree ι)} {bs : List (String × String)}
    (h : unrollAttributes as scope = some bs) : bs.map (·.1) = as.map (·.1) := by
  induction as generalizing bs with
  | nil => cases h; rfl
  | cons a as ih =>
    simp only [unrollAttributes, List.mapM_cons, Option.bind_eq_bind, Option.bind_eq_some_iff,
      pure, Option.some.injEq] at h ih
    obtain ⟨_, ⟨_, _, _, _, rfl⟩, cs, rest, rfl⟩ := h
    rw [List.map_cons, List.map_cons, ih rest]

theorem sameShape_of_bound? {v v' : Value} (shape : scope.SameShape scope')
    (h : t.bound? scope = some v) (h' : t.bound? scope' = some v') : v.SameShape v' := by
  obtain ⟨_, x | _ | _⟩ := t
  case var =>
    have related := shape x
    have eq : scope.get? x = some v := h
    have eq' : scope'.get? x = some v' := h'
    rw [eq, eq'] at related
    cases related with
    | some hv => exact hv
  all_goals cases h

theorem outline_unrollBody {ts : List (Tree ι)}
    (ih : ∀ t ∈ ts, ∀ {ps ps'}, t.unroll scope = some ps → t.unroll scope' = some ps' →
      Piece.outline ps = Piece.outline ps')
    (h : unrollBody ts scope = some ps) (h' : unrollBody ts scope' = some ps') :
    Piece.outline ps = Piece.outline ps' := by
  induction ts generalizing ps ps' with
  | nil => cases h; cases h'; rfl
  | cons t ts ih' =>
    have ⟨ht, hts⟩ := List.forall_mem_cons.mp ih
    obtain ⟨qs, rs, head, tail, rfl⟩ := unrollBody_cons_eq_some_iff.mp h
    obtain ⟨qs', rs', head', tail', rfl⟩ := unrollBody_cons_eq_some_iff.mp h'
    rw [Piece.outline_append, Piece.outline_append, ht head head', ih' hts tail tail']

theorem outline_unrollItems {items items' : List Value} {f g : Value → Option (List Piece)}
    {parts parts' : List (List Piece)} (shape : List.Forall₂ Value.SameShape items items')
    (ih : ∀ v v', v.SameShape v' → ∀ {ps ps'}, f v = some ps → g v' = some ps' →
      Piece.outline ps = Piece.outline ps')
    (h : items.mapM f = some parts) (h' : items'.mapM g = some parts') :
    Piece.outline parts.flatten = Piece.outline parts'.flatten := by
  induction shape generalizing parts parts' with
  | nil => cases h; cases h'; rfl
  | cons hv _ ih' =>
    simp only [List.mapM_cons, Option.bind_eq_bind, Option.bind_eq_some_iff, pure,
      Option.some.injEq] at h h'
    obtain ⟨ps, first, rest, others, rfl⟩ := h
    obtain ⟨ps', first', rest', others', rfl⟩ := h'
    rw [List.flatten_cons, List.flatten_cons, Piece.outline_append, Piece.outline_append,
      ih _ _ hv first first', ih' others others']

theorem outline_unroll (shape : scope.SameShape scope') (h : t.unroll scope = some ps)
    (h' : t.unroll scope' = some ps') : Piece.outline ps = Piece.outline ps' := by
  induction t generalizing scope scope' ps ps' with
  | var site x =>
    simp only [unroll, Option.bind_eq_bind, Option.bind_eq_some_iff, pure,
      Option.some.injEq] at h h'
    obtain ⟨_, _, _, _, rfl⟩ := h
    obtain ⟨_, _, _, _, rfl⟩ := h'
    rfl
  | element site tag attributes body _ ih =>
    obtain ⟨bs, inner, values, contents, rfl⟩ := unroll_element_eq_some_iff.mp h
    obtain ⟨bs', inner', values', contents', rfl⟩ := unroll_element_eq_some_iff.mp h'
    have names := (names_of_unrollAttributes values).trans (names_of_unrollAttributes values').symm
    have inner := outline_unrollBody (fun t ht => ih t ht shape) contents contents'
    simp [Piece.outline, Piece.outline_append, Tag.outline, names, inner]
  | loop site binder collection body _ ih =>
    obtain ⟨v, items, parts, bound, list, body, rfl⟩ := unroll_loop_eq_some_iff.mp h
    obtain ⟨v', items', parts', bound', list', body', rfl⟩ := unroll_loop_eq_some_iff.mp h'
    cases sameShape_of_bound? shape bound bound' with
    | text | markup => cases list
    | list related =>
      cases list
      cases list'
      exact outline_unrollItems related (fun v v' hv => outline_unrollBody fun t ht =>
        ih t ht (shape.bind hv binder)) body body'

end Tree
end MarkupTemplate
