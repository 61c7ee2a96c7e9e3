import MarkupTemplate.Proofs.Evaluation.Joined
import MarkupTemplate.Proofs.Likeness.Order
import MarkupTemplate.Proofs.Printing.Rendering

/-!
Evaluation of trees that are alike. The order of attributes decides in which order they are written
and which of several failures comes first, and nothing else: both trees have a value or neither has,
and their values differ in the order of characters at most (`evaluate_of_alike`).
-/

namespace MarkupTemplate

open EvaluationError

-- Both fail, with whatever errors, or both succeed with results that `r` relates.
inductive Concur {ε ε' α β : Type} (r : α → β → Prop) : Except ε α → Except ε' β → Prop where
  | ok {a : α} {b : β} : r a b → Concur r (.ok a) (.ok b)
  | error (e : ε) (e' : ε') : Concur r (.error e) (.error e')

namespace Concur

variable {ε ε' α β γ δ : Type} {r : α → β → Prop} {q : γ → δ → Prop} {x : Except ε α}
  {y : Except ε' β}

theorem refl {p : α → α → Prop} (h : ∀ a, p a a) (x : Except ε α) : Concur p x x := by
  cases x with
  | ok a    => exact .ok (h a)
  | error e => exact .error e e

theorem bind {f : α → Except ε γ} {g : β → Except ε' δ} (h : Concur r x y)
    (hf : ∀ a b, r a b → Concur q (f a) (g b)) : Concur q (x >>= f) (y >>= g) := by
  cases h with
  | ok related => exact hf _ _ related
  | error e e' => exact .error e e'

theorem map {f : α → γ} {g : β → δ} (h : Concur r x y) (hf : ∀ a b, r a b → q (f a) (g b)) :
    Concur q (f <$> x) (g <$> y) := by
  cases h with
  | ok related => exact .ok (hf _ _ related)
  | error e e' => exact .error e e'

theorem mapError_iff {μ μ' : Type} {f : ε → μ} {g : ε' → μ'} :
    Concur r (x.mapError f) (y.mapError g) ↔ Concur r x y where
  mp h := by
    cases x <;> cases y <;> cases h
    case ok.ok.ok related => exact .ok related
    case error.error.error => exact .error _ _
  mpr h := by
    cases h with
    | ok related => exact .ok related
    | error e e' => exact .error _ _

theorem blame {ι κ : Type} {x : Except Cause α} {y : Except Cause β} {site : ι} {site' : κ}
    (h : Concur r x y) : Concur r (EvaluationError.blame site x) (EvaluationError.blame site' y) :=
  mapError_iff.mpr h

theorem ok_iff (h : Concur r x y) : (∃ a, x = .ok a) ↔ ∃ b, y = .ok b := by
  cases h <;> simp

theorem trans {z : Except ε' β} {p : β → β → Prop} (h : Concur r x y) (g : Concur p y z)
    (closed : ∀ a b c, r a b → p b c → r a c) : Concur r x z := by
  cases h with
  | ok left =>
    cases g with
    | ok right => exact .ok (closed _ _ _ left right)
  | error e e' =>
    cases g with
    | error _ e'' => exact .error e e''

theorem related {a : α} {b : β} (h : Concur r (.ok a : Except ε α) (.ok b : Except ε' β)) :
    r a b := by
  cases h with
  | ok related => exact related

end Concur

-- The same characters in any order.
def Anagram (s s' : String) : Prop :=
  s.toList.Perm s'.toList

namespace Anagram

theorem refl (s : String) : Anagram s s :=
  List.Perm.refl s.toList

theorem append {s s' u u' : String} (h : Anagram s s') (g : Anagram u u') :
    Anagram (s ++ u) (s' ++ u') := by
  simpa [Anagram] using List.Perm.append h g

end Anagram

section

variable {ε ε' α β : Type}

theorem concur_joined_middle (f : β → Except ε String) (b : β) (front back : List β) :
    Concur Anagram (joined f (b :: (front ++ back))) (joined f (front ++ b :: back)) := by
  rw [joined_append, joined_cons, joined_cons, joined_append]
  cases joined f front <;> cases f b <;> cases joined f back
  case ok.ok.ok s u v =>
    refine .ok ?_
    simpa [Anagram] using List.perm_append_comm_assoc u.toList s.toList v.toList
  all_goals exact .error _ _

-- The items may come in another order on the other side, and so do their texts.
theorem concur_joined {f : α → Except ε String} {g : β → Except ε' String} {as : List α}
    {bs : List β} (h : Multiset.Rel (fun a b => Concur Anagram (f a) (g b)) ↑as ↑bs) :
    Concur Anagram (joined f as) (joined g bs) := by
  induction as generalizing bs with
  | nil =>
    rw [Multiset.coe_nil, Multiset.rel_zero_left, Multiset.coe_eq_zero] at h
    rw [h]
    exact .ok (.refl _)
  | cons a as ih =>
    rw [← Multiset.cons_coe] at h
    obtain ⟨b, m, first, others, split⟩ := Multiset.rel_cons_left.mp h
    obtain ⟨front, back, rfl⟩ : ∃ front back, bs = front ++ b :: back := by
      apply List.append_of_mem
      exact Multiset.mem_coe.mp (split ▸ Multiset.mem_cons_self b m)
    have rest : m = ↑(front ++ back) := by
      apply (Multiset.cons_inj_right b).mp
      rw [← split, Multiset.cons_coe]
      exact Multiset.coe_eq_coe.mpr List.perm_middle
    have ahead : Concur Anagram (joined f (a :: as)) (joined g (b :: (front ++ back))) := by
      rw [joined_cons, joined_cons]
      exact first.bind fun _ _ text => (ih (rest ▸ others)).bind fun _ _ texts =>
        .ok (text.append texts)
    exact ahead.trans (concur_joined_middle g b front back) fun _ _ _ => List.Perm.trans

theorem rel_of_forall₂ {R : α → β → Prop} {as : List α} {bs : List β}
    (h : List.Forall₂ R as bs) : Multiset.Rel R (as : Multiset α) (bs : Multiset β) := by
  induction h with
  | nil               => exact .zero
  | cons related _ ih => exact .cons related ih

end

namespace Value

-- Only markup may differ, by the order of its characters.
inductive Resembles : Value → Value → Prop where
  | text (s : String) : Resembles (.text s) (.text s)
  | list (vs : List Value) : Resembles (.list vs) (.list vs)
  | markup {s s' : String} : s.toList.Perm s'.toList → Resembles (.markup s) (.markup s')

namespace Resembles

variable {v w : Value}

theorem refl (v : Value) : v.Resembles v := by
  cases v with
  | text s   => exact .text s
  | list vs  => exact .list vs
  | markup s => exact .markup (.refl _)

theorem asText (h : v.Resembles w) : Concur (· = ·) v.asText w.asText := by
  cases h with
  | text s          => exact .ok rfl
  | list | markup _ => exact .error _ _

theorem asList (h : v.Resembles w) : Concur (· = ·) v.asList w.asList := by
  cases h with
  | list vs         => exact .ok rfl
  | text | markup _ => exact .error _ _

theorem asHtml (h : v.Resembles w) : Concur Anagram v.asHtml w.asHtml := by
  cases h with
  | text s      => exact .ok (.refl _)
  | list vs     => exact .error _ _
  | markup perm => exact .ok perm

end Resembles
end Value

namespace Tree

open Attributes

variable {ι : Type} {t u : Tree ι} {scope : Scope}

theorem concur_place (h : Concur Value.Resembles (t.evaluate scope) (u.evaluate scope)) :
    Concur Anagram (place scope t) (place scope u) :=
  h.bind fun _ _ value => value.asHtml.blame

theorem concur_assign {a b : String × Tree ι} (name : a.1 = b.1)
    (h : Concur Value.Resembles (a.2.evaluate scope) (b.2.evaluate scope)) :
    Concur Anagram (assign scope a) (assign scope b) := by
  refine h.bind fun _ _ value => value.asText.blame.bind fun s s' text => ?_
  rw [name, text]
  exact .ok (.refl _)

section

variable [DecidableEq ι]

theorem concur_body {ts us : List (Tree ι)} (ih : ∀ t ∈ ts, ∀ u, t.Alike u →
      Concur Value.Resembles (t.evaluate scope) (u.evaluate scope)) (h : alikeBody ts us) :
    Concur Anagram (evaluateBody ts scope) (evaluateBody us scope) := by
  rw [evaluateBody_eq_joined, evaluateBody_eq_joined]
  apply concur_joined (rel_of_forall₂ _)
  exact ((List.forall₂_and_left ts us).mpr ⟨ih, alikeBody_iff.mp h⟩).imp fun t u both =>
    concur_place (both.1 u both.2)

theorem concur_attributes {as bs : List (String × Tree ι)} (ih : ∀ a ∈ as, ∀ u, a.2.Alike u →
      Concur Value.Resembles (a.2.evaluate scope) (u.evaluate scope)) (h : alikeAttributes as bs) :
    Concur Anagram (evaluateAttributes as scope) (evaluateAttributes bs scope) := by
  rw [evaluateAttributes_eq_joined, evaluateAttributes_eq_joined]
  refine concur_joined ((matched_of_alikeAttributes h).mono fun a ha b _ partner => ?_)
  exact concur_assign partner.1 (ih a (Multiset.mem_coe.mp ha) b.2 partner.2)

theorem concur_evaluate (h : t.Alike u) :
    Concur Value.Resembles (t.evaluate scope) (u.evaluate scope) := by
  induction t generalizing u scope with
  | var site x =>
    cases eq_of_var_alike h
    exact .refl Value.Resembles.refl _
  | element site tag attributes body ihA ihB =>
    obtain ⟨bs, us, rfl, hA, hB⟩ := eq_of_element_alike h
    simp only [evaluate]
    refine (concur_body (fun t ht u => ihB t ht) hB).bind fun _ _ body => ?_
    refine (concur_attributes (fun a ha u => ihA a ha) hA).bind fun _ _ attributes => ?_
    refine .ok (.markup ?_)
    have start := ((Anagram.refl ("<" ++ tag)).append attributes).append (.refl ">")
    exact (((start.append body).append (.refl "</")).append (.refl tag)).append (.refl ">")
  | loop site binder collection body ihC ihB =>
    obtain ⟨c, us, rfl, hC, hB⟩ := eq_of_loop_alike h
    rw [evaluate_loop, evaluate_loop]
    refine (ihC hC).bind fun _ _ value => value.asList.blame.bind fun items items' same => ?_
    rw [same]
    refine Concur.map (concur_joined ?_) fun _ _ => .markup
    exact Multiset.rel_refl_of_refl_on fun item _ => concur_body (fun t ht u => ihB t ht) hB

end

section

variable {κ : Type} {t : Tree ι} {u : Tree κ}

theorem concur_of_shape (h : t.shape.Alike u.shape) (scope : Scope) :
    Concur Value.Resembles (t.evaluate scope) (u.evaluate scope) := by
  have concur : Concur Value.Resembles (t.shape.evaluate scope) (u.shape.evaluate scope) :=
    concur_evaluate h
  rw [shape, shape, evaluate_map, evaluate_map] at concur
  exact Concur.mapError_iff.mp concur

theorem shape_eq_of_sameOrder (h : t.shape.Alike u.shape) (keyed : t.Keyed)
    (order : t.SameOrder u) : t.shape = u.shape :=
  eq_of_alike h (keyed.map _) order.shape

-- If a name were given twice, the order of the names would not settle that of the values.
theorem evaluate_of_alike [DecidableEq ι] :
    (∀ (t : Tree ι) (u : Tree κ), t.shape.Alike u.shape → ∀ scope,
      ((∃ v, t.evaluate scope = .ok v) ↔ ∃ w, u.evaluate scope = .ok w) ∧
      (∀ v w, t.evaluate scope = .ok v → u.evaluate scope = .ok w → v.Resembles w) ∧
      (t.Keyed → t.SameOrder u → ∀ v, t.evaluate scope = .ok v ↔ u.evaluate scope = .ok v)) ∧
    Equivalence (fun t u : Tree ι => t.shape.Alike u.shape) ∧
    (∀ t u : Tree ι, t.Alike u → t.shape.Alike u.shape) ∧
    ∀ (site site' : ι) (tag tag' : String) (as bs : Attributes (Tree ι)) (ts us : List (Tree ι)),
      as.names.Nodup → bs.names.Nodup →
      (Alike ⟨site, .element tag as ts⟩ ⟨site', .element tag' bs us⟩ ↔ site = site' ∧ tag = tag' ∧
        (∀ x, Option.Rel Alike (as.lookup x) (bs.lookup x)) ∧ List.Forall₂ Alike ts us) := by
  refine ⟨fun t u like scope => ?agree, equivalence_alike.comap shape, ?shapes, ?contents⟩
  case agree =>
    have concur := concur_of_shape like scope
    refine ⟨concur.ok_iff, fun v w ok ok' => ?resemble, fun keyed order v => ?same⟩
    case resemble =>
      rw [ok, ok'] at concur
      exact concur.related
    case same =>
      exact evaluate_eq_ok_iff_of_shape_eq (shape_eq_of_sameOrder like keyed order)
  case shapes   => exact fun t u like => like.map _
  case contents => exact fun _ _ _ _ _ _ _ _ nodup nodup' => alike_element_iff nodup nodup'

-- The text of the first tree is put in order only if the attributes are. Where the tree stands in
-- its source makes no difference.
theorem evaluate_of_alike_swapped :
    let var (p : Nat) (z : String) : Tree Span := ⟨⟨p, p + 1⟩, .var z⟩
    let p (attributes : Attributes (Tree Span)) : Tree Span :=
      ⟨⟨0, 30⟩, .element "p" attributes [var 22 "z"]⟩
    let t := p [("a", var 6 "x"), ("b", var 12 "y")]
    let u := p [("b", var 6 "y"), ("a", var 12 "x")]
    let moved : Tree Span := t.map fun s => ⟨s.start + 7, s.stop + 7⟩
    let scope := ((Scope.empty.bind "x" (.text "1")).bind "y" (.text "2")).bind "z" (.text "<")
    t.evaluate scope = .ok (.markup "<p a=\"1\" b=\"2\">&lt;</p>") ∧
      u.evaluate scope = .ok (.markup "<p b=\"2\" a=\"1\">&lt;</p>") ∧
      (Value.markup "<p a=\"1\" b=\"2\">&lt;</p>").Resembles
        (.markup "<p b=\"2\" a=\"1\">&lt;</p>") ∧
      moved.evaluate scope = .ok (.markup "<p a=\"1\" b=\"2\">&lt;</p>") := by
  intro var p t u moved scope
  have value : t.evaluate scope = .ok (.markup "<p a=\"1\" b=\"2\">&lt;</p>") := by decide +kernel
  have value' : u.evaluate scope = .ok (.markup "<p b=\"2\" a=\"1\">&lt;</p>") := by decide +kernel
  have like : t.shape.Alike u.shape := by
    rw [Alike]
    decide +kernel
  have like' : t.shape.Alike moved.shape := by
    rw [shape_map]
    exact alike_refl _
  have keyed : t.Keyed := .element (by decide) (by simp [var, Keyed.var]) (by simp [var, Keyed.var])
  have ⟨agree, _⟩ := evaluate_of_alike (ι := Span) (κ := Span)
  have ⟨_, resemble, _⟩ := agree t u like scope
  have ⟨_, _, same⟩ := agree t moved like' scope
  refine ⟨value, value', resemble _ _ value value', ?_⟩
  exact (same keyed ((SameOrder.refl t).map_left _).symm _).mp value

end

end Tree
end MarkupTemplate
