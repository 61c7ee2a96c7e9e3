import MarkupTemplate.Proofs.Evaluation.Outcome
import MarkupTemplate.Proofs.Markup.Piece
import MarkupTemplate.Proofs.Printing.WellFormed

/-!
What a template comes to in a scope: the tags of its elements in order, with the bodies of its
loops repeated, and the texts of the variables between them. `Tree.exists_unroll` says that a
template evaluates to just that, written down, as long as no markup is bound to a name.
-/

namespace MarkupTemplate

namespace Value

inductive Plain : Value → Prop where
  | text (s : String) : Plain (.text s)
  | list {vs : List Value} : (∀ v ∈ vs, Plain v) → Plain (.list vs)

end Value

namespace Scope

-- Nothing that is bound is markup, at any depth.
def Plain (s : Scope) : Prop :=
  ∀ x v, s.get? x = some v → v.Plain

theorem Plain.bind {s : Scope} (h : s.Plain) {v : Value} (hv : v.Plain) (x : String) :
    (s.bind x v).Plain := by
  intro y w eq
  rw [get?_bind] at eq
  split at eq
  case isTrue  => cases eq; exact hv
  case isFalse => exact h y w eq

end Scope

namespace Tree

variable {ι : Type}

def unrollAttributes (as : List (String × Tree ι)) (scope : Scope) :
    Option (List (String × String)) :=
  as.mapM fun a => do
    let v ← a.2.bound? scope
    let s ← v.text?
    return (a.1, escapeAttribute s)

mutual

def unroll : Tree ι → Scope → Option (List Piece)
  | ⟨_, .var x⟩, scope => do
    let v ← scope.get? x
    let s ← v.text?
    return [.text s]
  | ⟨_, .element tag attributes body⟩, scope => do
    let attributes ← unrollAttributes attributes scope
    let inner ← unrollBody body scope
    return .tag ⟨false, tag, attributes⟩ :: inner ++ [.tag ⟨true, tag, []⟩]
  | ⟨_, .loop binder collection body⟩, scope => do
    let v ← collection.bound? scope
    let items ← v.items?
    let parts ← items.mapM fun item => unrollBody body (scope.bind binder item)
    return parts.flatten

def unrollBody : List (Tree ι) → Scope → Option (List Piece)
  | [], _ => return []
  | t :: ts, scope => do
    let ps ← t.unroll scope
    let qs ← unrollBody ts scope
    return ps ++ qs

end

open EvaluationError

variable {t : Tree ι} {scope : Scope} {v : Value} {site : ι} {tag : String}
  {attributes : List (String × Tree ι)} {body ts : List (Tree ι)} {ps : List Piece}

theorem unroll_element_eq_some_iff :
    unroll ⟨site, .element tag attributes body⟩ scope = some ps ↔
      ∃ bs inner, unrollAttributes attributes scope = some bs ∧ unrollBody body scope = some inner ∧
        .tag ⟨false, tag, bs⟩ :: inner ++ [.tag ⟨true, tag, []⟩] = ps := by
  simp [unroll, Option.bind_eq_some_iff]

theorem unroll_loop_eq_some_iff {binder : String} {collection : Tree ι} :
    unroll ⟨site, .loop binder collection body⟩ scope = some ps ↔
      ∃ v items parts, collection.bound? scope = some v ∧ v.items? = some items ∧
        (items.mapM fun item => unrollBody body (scope.bind binder item)) = some parts ∧
          parts.flatten = ps := by
  simp [unroll, Option.bind_eq_some_iff]

theorem unrollBody_cons_eq_some_iff : unrollBody (t :: ts) scope = some ps ↔
    ∃ qs rs, t.unroll scope = some qs ∧ unrollBody ts scope = some rs ∧ qs ++ rs = ps := by
  simp [unrollBody, Option.bind_eq_some_iff]

theorem plain_of_bound? (plain : scope.Plain) (h : t.bound? scope = some v) : v.Plain := by
  obtain ⟨_, x | _ | _⟩ := t
  case var => exact plain x v h
  all_goals cases h

theorem exists_unrollAttributes {as : List (String × Tree ι)} {s : String}
    (h : evaluateAttributes as scope = .ok s) :
    ∃ bs, unrollAttributes as scope = some bs ∧ s.toList = Tag.attributesText bs := by
  induction as generalizing s with
  | nil =>
    cases h
    exact ⟨[], rfl, rfl⟩
  | cons a as ih =>
    simp only [evaluateAttributes, bind_eq_ok_iff, blame_eq_ok_iff, pure, Except.pure,
      Except.ok.injEq] at h
    obtain ⟨v, value, content, text, others, rest, rfl⟩ := h
    obtain ⟨bs, unrolled, eq⟩ := ih rest
    obtain rfl := Value.asText_eq_ok_iff.mp text
    have bound := bound?_of_evaluate value (by simp)
    refine ⟨(a.1, escapeAttribute content) :: bs, ?_, by simp [Tag.attributesText, eq]⟩
    rw [unrollAttributes, List.mapM_cons, ← unrollAttributes, unrolled, bound]
    rfl

-- The parts of a loop are written one after the other.
theorem exists_unrollItems {binder : String} {body : List (Tree ι)} {items : List Value}
    {parts : List String} (plain : scope.Plain) (plain_items : ∀ v ∈ items, v.Plain)
    (ih : ∀ {scope : Scope} {html}, scope.Plain → evaluateBody body scope = .ok html →
      ∃ ps, unrollBody body scope = some ps ∧ html.toList = ps.flatMap Piece.html)
    (h : (items.mapM fun item => evaluateBody body (scope.bind binder item)) = .ok parts) :
    ∃ pss, (items.mapM fun item => unrollBody body (scope.bind binder item)) = some pss ∧
      (String.join parts).toList = pss.flatten.flatMap Piece.html := by
  induction items generalizing parts with
  | nil =>
    cases h
    exact ⟨[], rfl, rfl⟩
  | cons v vs ih' =>
    have ⟨hv, hvs⟩ := List.forall_mem_cons.mp plain_items
    simp only [List.mapM_cons, bind_eq_ok_iff, pure, Except.pure, Except.ok.injEq] at h
    obtain ⟨part, first, parts, others, rfl⟩ := h
    obtain ⟨ps, unrolled, eq⟩ := ih (plain.bind hv binder) first
    obtain ⟨pss, unrolled', eq'⟩ := ih' hvs others
    refine ⟨ps :: pss, by simp [unrolled, unrolled'], ?_⟩
    simp [eq, eq', String.join_cons]

theorem exists_unrollBody {ts : List (Tree ι)} {html : String}
    (ih : ∀ t ∈ ts, ∀ {v html}, t.evaluate scope = .ok v → v.toHtml = .ok html →
      ∃ ps, t.unroll scope = some ps ∧ html.toList = ps.flatMap Piece.html)
    (h : evaluateBody ts scope = .ok html) :
    ∃ ps, unrollBody ts scope = some ps ∧ html.toList = ps.flatMap Piece.html := by
  induction ts generalizing html with
  | nil =>
    cases h
    exact ⟨[], rfl, rfl⟩
  | cons t ts ih' =>
    have ⟨ht, hts⟩ := List.forall_mem_cons.mp ih
    simp only [evaluateBody, bind_eq_ok_iff, blame_eq_ok_iff, Value.asHtml_eq_ok_iff, pure,
      Except.pure, Except.ok.injEq] at h
    obtain ⟨v, value, html, shown, others, rest, rfl⟩ := h
    obtain ⟨ps, unrolled, eq⟩ := ht value shown
    obtain ⟨qs, unrolled', eq'⟩ := ih' hts rest
    exact ⟨ps ++ qs, unrollBody_cons_eq_some_iff.mpr ⟨ps, qs, unrolled, unrolled', rfl⟩,
      by simp [eq, eq']⟩

theorem exists_unroll {html : String} (plain : scope.Plain) (h : t.evaluate scope = .ok v)
    (shown : v.toHtml = .ok html) :
    ∃ ps, t.unroll scope = some ps ∧ html.toList = ps.flatMap Piece.html := by
  induction t generalizing scope v html with
  | var site x =>
    rw [evaluate, blame_eq_ok_iff, find_eq_ok_iff] at h
    cases plain x v h with
    | text s =>
      cases shown
      exact ⟨[.text s], by simp [unroll, h, Value.text?], by simp [Piece.html]⟩
    | list   => cases shown
  | element site tag attributes body _ ih =>
    simp only [evaluate, bind_eq_ok_iff, pure, Except.pure, Except.ok.injEq] at h
    obtain ⟨inner, body, opening, attributes, rfl⟩ := h
    obtain ⟨ps, unrolled, eq⟩ := exists_unrollBody (fun t ht => ih t ht plain) body
    obtain ⟨bs, unrolled', eq'⟩ := exists_unrollAttributes attributes
    cases shown
    refine ⟨_, unroll_element_eq_some_iff.mpr ⟨bs, ps, unrolled', unrolled, rfl⟩, ?_⟩
    simp [eq, eq', Piece.html, Tag.inner, Tag.attributesText]
  | loop site binder collection body _ ih =>
    simp only [evaluate, bind_eq_ok_iff, blame_eq_ok_iff, Value.asList_eq_ok_iff, pure,
      Except.pure, Except.ok.injEq] at h
    obtain ⟨_, value, items, rfl, parts, body, rfl⟩ := h
    have bound := bound?_of_evaluate value (by simp)
    have plain_items : ∀ v ∈ items, v.Plain := by
      cases plain_of_bound? plain bound with
      | list h => exact h
    obtain ⟨pss, unrolled, eq⟩ := exists_unrollItems plain plain_items
      (fun plain => exists_unrollBody fun t ht => ih t ht plain) body
    cases shown
    exact ⟨_, unroll_loop_eq_some_iff.mpr ⟨_, items, pss, bound, rfl, unrolled, rfl⟩, eq⟩

theorem exists_of_mem_mapM {α β : Type} {f : α → Option β} {as : List α} {bs : List β}
    (h : as.mapM f = some bs) {b : β} (hb : b ∈ bs) : ∃ a ∈ as, f a = some b := by
  induction as generalizing bs with
  | nil =>
    cases h
    cases hb
  | cons a as ih =>
    simp only [List.mapM_cons, Option.bind_eq_bind, Option.bind_eq_some_iff, pure,
      Option.some.injEq] at h
    obtain ⟨c, hc, cs, hcs, rfl⟩ := h
    obtain rfl | hb := List.mem_cons.mp hb
    case inl => exact ⟨a, List.mem_cons_self, hc⟩
    case inr =>
      have ⟨a', ha', eq⟩ := ih hcs hb
      exact ⟨a', List.mem_cons_of_mem _ ha', eq⟩

theorem legal_of_unrollBody {ts : List (Tree ι)} {ps : List Piece}
    (ih : ∀ t ∈ ts, ∀ {ps}, t.unroll scope = some ps → ∀ tag, .tag tag ∈ ps → tag.Legal)
    (h : unrollBody ts scope = some ps) : ∀ tag, .tag tag ∈ ps → tag.Legal := by
  induction ts generalizing ps with
  | nil =>
    cases h
    exact nofun
  | cons t ts ih' =>
    have ⟨ht, hts⟩ := List.forall_mem_cons.mp ih
    obtain ⟨ps, qs, head, tail, rfl⟩ := unrollBody_cons_eq_some_iff.mp h
    intro tag mem
    obtain mem | mem := List.mem_append.mp mem
    · exact ht head tag mem
    · exact ih' hts tail tag mem

theorem legal_of_unroll {ps : List Piece} (sound : t.Sound) (h : t.unroll scope = some ps) :
    ∀ tag, .tag tag ∈ ps → tag.Legal := by
  induction sound generalizing scope ps with
  | var =>
    simp only [unroll, Option.bind_eq_bind, Option.bind_eq_some_iff, pure, Option.some.injEq] at h
    obtain ⟨_, _, _, _, rfl⟩ := h
    simp
  | element htag values _ _ _ _ ih =>
    obtain ⟨bs, inner, attributes, body, rfl⟩ := unroll_element_eq_some_iff.mp h
    have inner_legal := legal_of_unrollBody (fun t ht => ih t ht) body
    have attributes_legal : ∀ b ∈ bs, IsName b.1 ∧ ∀ c ∈ b.2.toList, isQuoted c := by
      intro b hb
      have ⟨a, ha, eq⟩ := exists_of_mem_mapM attributes hb
      simp only [Option.bind_eq_bind, Option.bind_eq_some_iff, pure, Option.some.injEq] at eq
      obtain ⟨_, _, s, _, rfl⟩ := eq
      exact ⟨(values a ha).1, Tag.isQuoted_escapeAttribute s⟩
    intro t ht
    simp only [List.cons_append, List.mem_cons, List.mem_append, Piece.tag.injEq,
      List.not_mem_nil, or_false] at ht
    obtain rfl | ht | rfl := ht
    · exact ⟨htag, attributes_legal⟩
    · exact inner_legal t ht
    · exact ⟨htag, nofun⟩
  | loop _ _ _ _ _ _ ih =>
    obtain ⟨_, items, parts, _, _, body, rfl⟩ := unroll_loop_eq_some_iff.mp h
    intro t ht
    have ⟨part, hpart, ht⟩ := List.mem_flatten.mp ht
    have ⟨_, _, unrolled⟩ := exists_of_mem_mapM body hpart
    exact legal_of_unrollBody (fun t ht => ih t ht) unrolled t ht

end Tree
end MarkupTemplate
