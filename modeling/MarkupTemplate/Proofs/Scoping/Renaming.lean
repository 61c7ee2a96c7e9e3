import MarkupTemplate.Proofs.Scoping.Insertion

/-!
Other names for the variables of loops. `rename x y` calls `y` what is called `x` and is free, and
`put_renamed_evaluate` says that a loop may bind `y` for `x` if its body is renamed, wherever it
stands and whatever the two names are bound to outside of it.
-/

namespace MarkupTemplate

namespace Scope

variable {s s' : Scope} {x y z : String} {names : List String}

-- What `s` has for `x` is what `s'` has for `y`. All names but these two are bound alike.
structure Renamed (x y : String) (s s' : Scope) : Prop where
  bound : ∃ v, s.get? x = some v ∧ s'.get? y = some v
  other : ∀ z, z ≠ x → z ≠ y → s.get? z = s'.get? z

theorem renamed_bind (s : Scope) (x y : String) (v : Value) :
    Renamed x y (s.bind x v) (s.bind y v) where
  bound := ⟨v, get?_bind_self .., get?_bind_self ..⟩
  other := by
    intro z ne ne'
    simp only [get?_bind, if_neg (Ne.symm ne), if_neg (Ne.symm ne')]

namespace Renamed

variable (h : Renamed x y s s')

include h

theorem bind (ne : z ≠ x) (ne' : z ≠ y) (v : Value) :
    Renamed x y (s.bind z v) (s'.bind z v) where
  bound := by
    simp only [get?_bind, if_neg ne, if_neg ne']
    exact h.bound
  other := by
    intro w hw hw'
    simp only [get?_bind, h.other w hw hw']

-- Once `x` is bound anew on both sides, it is the same on both again.
theorem agreeOn_bind (fresh : y ∉ names) (v : Value) :
    AgreeOn names (s.bind x v) (s'.bind x v) := by
  apply Scope.agreeOn_bind
  intro z hz ne
  exact h.other z ne fun eq => fresh (eq ▸ hz)

theorem find_eq : s'.find y = s.find x := by
  have ⟨v, left, right⟩ := h.bound
  simp only [find, left, right]

theorem find_eq_of_ne (ne : z ≠ x) (ne' : z ≠ y) : s'.find z = s.find z := by
  simp only [find, h.other z ne ne']

end Renamed
end Scope

namespace Tree

variable {ι : Type} {x y : String}

mutual

-- A loop that binds `x` itself has another `x` in its body, which keeps its name.
def rename (x y : String) : Tree ι → Tree ι
  | ⟨site, .var z⟩ => ⟨site, .var (if z = x then y else z)⟩
  | ⟨site, .element tag attributes body⟩ =>
    ⟨site, .element tag (renameAttributes x y attributes) (renameBody x y body)⟩
  | ⟨site, .loop binder collection body⟩ =>
    ⟨site, .loop binder (collection.rename x y) (if binder = x then body else renameBody x y body)⟩

def renameAttributes (x y : String) : List (String × Tree ι) → List (String × Tree ι)
  | [] => []
  | (name, t) :: as => (name, t.rename x y) :: renameAttributes x y as

def renameBody (x y : String) : List (Tree ι) → List (Tree ι)
  | [] => []
  | t :: ts => t.rename x y :: renameBody x y ts

end

@[simp]
theorem renameAttributes_eq (x y : String) (as : List (String × Tree ι)) :
    renameAttributes x y as = Attributes.mapEntries (rename x y) as := by
  induction as with
  | nil          => rfl
  | cons a as ih => simp_all [renameAttributes, Attributes.mapEntries]

@[simp]
theorem renameBody_eq (x y : String) (ts : List (Tree ι)) :
    renameBody x y ts = ts.map (rename x y) := by
  induction ts with
  | nil          => rfl
  | cons t ts ih => simp_all [renameBody]

variable {t : Tree ι} {scope scope' : Scope}

theorem sameIn_rename (fresh : y ∉ t.names) (related : Scope.Renamed x y scope scope') :
    SameIn scope scope' t (t.rename x y) := by
  induction t generalizing scope scope' with
  | var site z =>
    have ne : z ≠ y := fun eq => fresh (by simp [eq])
    refine ⟨rfl, ?_⟩
    rw [rename]
    split
    case isTrue eq  => simp only [evaluate, eq, related.find_eq]
    case isFalse ne' => simp only [evaluate, related.find_eq_of_ne ne' ne]
  | element site tag attributes body ihA ihB =>
    rw [mem_names_element, not_or] at fresh
    rw [rename, renameAttributes_eq, renameBody_eq]
    apply SameIn.element
    case values =>
      refine List.forall₂_map_right_iff.mpr (List.forall₂_same.mpr fun a ha => ⟨rfl, ?_⟩)
      exact ihA a ha (fun mem => fresh.1 ⟨a, ha, mem⟩) related
    case body =>
      refine List.forall₂_map_right_iff.mpr (List.forall₂_same.mpr fun t ht => ?_)
      exact ihB t ht (fun mem => fresh.2 ⟨t, ht, mem⟩) related
  | loop site binder collection body ihC ihB =>
    simp only [mem_names_loop, not_or, not_exists, not_and] at fresh
    obtain ⟨ne, inCollection, inBody⟩ := fresh
    rw [rename, renameBody_eq]
    apply SameIn.loop (ihC inCollection related)
    intro item
    split
    case isTrue eq =>
      refine List.forall₂_same.mpr fun t ht => sameIn_of_agree ?_
      rw [eq]
      exact related.agreeOn_bind (fun mem => inBody t ht (mem_names_of_mem_free mem)) item
    case isFalse ne' =>
      refine List.forall₂_map_right_iff.mpr (List.forall₂_same.mpr fun t ht => ?_)
      exact ihB t ht (inBody t ht) (related.bind ne' (Ne.symm ne) item)

-- In its own body the name that is bound is the new one from the start.
theorem evaluate_renamed {site : ι} {collection : Tree ι} {body : List (Tree ι)}
    (fresh : ∀ t ∈ body, y ∉ t.names) (scope : Scope) :
    evaluate ⟨site, .loop x collection body⟩ scope =
      evaluate ⟨site, .loop y collection (body.map (rename x y))⟩ scope := by
  refine (SameIn.loop ⟨rfl, rfl⟩ fun item => ?_).evaluate
  refine List.forall₂_map_right_iff.mpr (List.forall₂_same.mpr fun t ht => ?_)
  exact sameIn_rename (fresh t ht) (scope.renamed_bind x y item)

theorem put_renamed_evaluate {path : List Turn} {site : ι} {collection : Tree ι}
    {body : List (Tree ι)} (here : t.at? path = some ⟨site, .loop x collection body⟩)
    (fresh : ∀ u ∈ body, y ∉ u.names) :
    let loop : Tree ι := ⟨site, .loop y collection (body.map (rename x y))⟩
    (t.put path loop).at? path = some loop ∧
      ∀ scope, (t.put path loop).evaluate scope = t.evaluate scope := by
  intro loop
  refine ⟨at?_put here _, fun scope => ?_⟩
  have exchange : t.Exchange path (· = ·) := by
    constructor
    case agree => exact fun eq _ _ => by rw [eq]
    case bind  => exact fun eq _ _ _ => by rw [eq]
  have there (s s' : Scope) (eq : s = s') :
      evaluate ⟨site, .loop x collection body⟩ s = loop.evaluate s' := by
    rw [← eq]
    exact evaluate_renamed fresh s
  have same := exchange.sameIn_put (w := loop) here rfl there (Eq.refl scope)
  exact same.evaluate.symm

-- The inner loop runs over what the outer one binds, and binds the name again. Behind both loops
-- the name is that of the scope.
theorem put_renamed_evaluate_nested :
    let var (p : Nat) (z : String) : Tree Span := ⟨⟨p, p + 1⟩, .var z⟩
    let inner (z : String) : Tree Span := ⟨⟨20, 44⟩, .loop "x" (var 29 z) [var 34 "x"]⟩
    let t (z : String) : Tree Span :=
      ⟨⟨0, 60⟩, .element "p" [] [⟨⟨5, 50⟩, .loop z (var 14 "z") [inner z]⟩, var 54 "x"]⟩
    let scope := ((Scope.empty.bind "x" (.text "o")).bind "y" (.list [])).bind "z"
      (.list [.list [.text "a", .text "b"]])
    (t "x").evaluate scope = .ok (.markup "<p>abo</p>") ∧
      (t "y").evaluate scope = .ok (.markup "<p>abo</p>") := by
  intro var inner t scope
  have value : (t "x").evaluate scope = .ok (.markup "<p>abo</p>") := by decide +kernel
  have here : (t "x").at? [.child 0] = some ⟨⟨5, 50⟩, .loop "x" (var 14 "z") [inner "x"]⟩ := rfl
  have ⟨_, same⟩ := put_renamed_evaluate (y := "y") here (by decide)
  exact ⟨value, (same scope).trans value⟩

end Tree
end MarkupTemplate
