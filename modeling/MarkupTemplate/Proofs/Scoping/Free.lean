import Mathlib.Data.List.Forall2
import MarkupTemplate.Evaluation.Basic

/-!
The names in a tree. Those that are free in it are looked up in the scope when it is evaluated, and
`evaluate_of_agree` says that nothing else of the scope counts.
-/

namespace MarkupTemplate

-- For each of these names both scopes have the same, which may be nothing.
def Scope.AgreeOn (names : List String) (s s' : Scope) : Prop :=
  ∀ x ∈ names, s.get? x = s'.get? x

instance (names : List String) (s s' : Scope) : Decidable (Scope.AgreeOn names s s') :=
  inferInstanceAs (Decidable (∀ x ∈ names, s.get? x = s'.get? x))

theorem Scope.agreeOn_bind {names : List String} {s s' : Scope} {binder : String}
    (h : ∀ x ∈ names, x ≠ binder → s.get? x = s'.get? x) (v : Value) :
    AgreeOn names (s.bind binder v) (s'.bind binder v) := by
  intro x hx
  simp only [get?_bind]
  split
  case isTrue     => rfl
  case isFalse ne => exact h x hx (Ne.symm ne)

namespace Tree

variable {ι : Type}

mutual

-- The names in a tree, in the order of their places. What a loop makes of the names in its
-- collection and in its body is up to `loop`.
def gather (loop : String → List String → List String → List String) : Tree ι → List String
  | ⟨_, .var name⟩ => [name]
  | ⟨_, .element _ attributes body⟩ => gatherAttributes loop attributes ++ gatherBody loop body
  | ⟨_, .loop binder collection body⟩ =>
    loop binder (collection.gather loop) (gatherBody loop body)

def gatherAttributes (loop : String → List String → List String → List String) :
    List (String × Tree ι) → List String
  | [] => []
  | (_, t) :: as => t.gather loop ++ gatherAttributes loop as

def gatherBody (loop : String → List String → List String → List String) :
    List (Tree ι) → List String
  | [] => []
  | t :: ts => t.gather loop ++ gatherBody loop ts

end

-- A loop binds its name in its body, and not in its collection.
def free (t : Tree ι) : List String :=
  t.gather fun binder collection body => collection ++ body.filter (· ≠ binder)

-- All variables and the names of all loops, at any depth.
def names (t : Tree ι) : List String :=
  t.gather fun binder collection body => binder :: (collection ++ body)

section

variable {loop : String → List String → List String → List String} {x : String}

theorem mem_gatherAttributes {as : List (String × Tree ι)} :
    x ∈ gatherAttributes loop as ↔ ∃ a ∈ as, x ∈ a.2.gather loop := by
  induction as with
  | nil => simp [gatherAttributes]
  | cons a as ih => simp [gatherAttributes, ih]

theorem mem_gatherBody {ts : List (Tree ι)} :
    x ∈ gatherBody loop ts ↔ ∃ t ∈ ts, x ∈ t.gather loop := by
  induction ts with
  | nil => simp [gatherBody]
  | cons t ts ih => simp [gatherBody, ih]

end

section

variable {x binder tag : String} {site : ι} {collection : Tree ι} {body : List (Tree ι)}
  {attributes : List (String × Tree ι)}

@[simp]
theorem free_var : free ⟨site, .var x⟩ = [x] := by
  simp [free, gather]

@[simp]
theorem mem_free_element : x ∈ free ⟨site, .element tag attributes body⟩ ↔
    (∃ a ∈ attributes, x ∈ a.2.free) ∨ ∃ t ∈ body, x ∈ t.free := by
  simp [free, gather, mem_gatherAttributes, mem_gatherBody]

@[simp]
theorem mem_free_loop : x ∈ free ⟨site, .loop binder collection body⟩ ↔
    x ∈ collection.free ∨ (∃ t ∈ body, x ∈ t.free) ∧ x ≠ binder := by
  simp [free, gather, mem_gatherBody]

@[simp]
theorem names_var : names ⟨site, .var x⟩ = [x] := by
  simp [names, gather]

@[simp]
theorem mem_names_element : x ∈ names ⟨site, .element tag attributes body⟩ ↔
    (∃ a ∈ attributes, x ∈ a.2.names) ∨ ∃ t ∈ body, x ∈ t.names := by
  simp [names, gather, mem_gatherAttributes, mem_gatherBody]

@[simp]
theorem mem_names_loop : x ∈ names ⟨site, .loop binder collection body⟩ ↔
    x = binder ∨ x ∈ collection.names ∨ ∃ t ∈ body, x ∈ t.names := by
  simp [names, gather, mem_gatherBody]

end

theorem mem_names_of_mem_free {t : Tree ι} {x : String} (h : x ∈ t.free) : x ∈ t.names := by
  induction t with
  | var => simpa using h
  | element _ _ _ _ ihA ihB =>
    simp only [mem_free_element, mem_names_element] at h ⊢
    exact h.imp (fun ⟨a, ha, hx⟩ => ⟨a, ha, ihA a ha hx⟩) fun ⟨t, ht, hx⟩ => ⟨t, ht, ihB t ht hx⟩
  | loop _ _ _ _ ihC ihB =>
    simp only [mem_free_loop, mem_names_loop] at h ⊢
    exact .inr <| h.imp ihC fun ⟨⟨t, ht, hx⟩, _⟩ => ⟨t, ht, ihB t ht hx⟩

variable {scope scope' : Scope}

-- In their scopes the trees come to the same, and what is wrong with that is put down to one site.
structure SameIn (scope scope' : Scope) (t u : Tree ι) : Prop where
  site     : t.site = u.site
  evaluate : t.evaluate scope = u.evaluate scope'

theorem evaluateAttributes_of_forall₂ {as bs : List (String × Tree ι)}
    (h : List.Forall₂ (fun a b => a.1 = b.1 ∧ SameIn scope scope' a.2 b.2) as bs) :
    evaluateAttributes as scope = evaluateAttributes bs scope' := by
  induction h with
  | nil => rfl
  | cons same _ ih =>
    simp only [evaluateAttributes, same.1, same.2.site, same.2.evaluate, ih]

theorem evaluateBody_of_forall₂ {ts us : List (Tree ι)}
    (h : List.Forall₂ (SameIn scope scope') ts us) :
    evaluateBody ts scope = evaluateBody us scope' := by
  induction h with
  | nil => rfl
  | cons same _ ih => simp only [evaluateBody, same.site, same.evaluate, ih]

theorem SameIn.element {site : ι} {tag : String} {as bs : List (String × Tree ι)}
    {ts us : List (Tree ι)}
    (values : List.Forall₂ (fun a b => a.1 = b.1 ∧ SameIn scope scope' a.2 b.2) as bs)
    (body : List.Forall₂ (SameIn scope scope') ts us) :
    SameIn scope scope' ⟨site, .element tag as ts⟩ ⟨site, .element tag bs us⟩ where
  site     := rfl
  evaluate := by
    simp only [Tree.evaluate, evaluateBody_of_forall₂ body, evaluateAttributes_of_forall₂ values]

-- The names of the loops are bound to the item in both scopes, whatever they stood for before.
theorem SameIn.loop {site : ι} {x y : String} {t u : Tree ι} {ts us : List (Tree ι)}
    (collection : SameIn scope scope' t u)
    (body : ∀ item, List.Forall₂ (SameIn (scope.bind x item) (scope'.bind y item)) ts us) :
    SameIn scope scope' ⟨site, .loop x t ts⟩ ⟨site, .loop y u us⟩ where
  site     := rfl
  evaluate := by
    simp only [Tree.evaluate, collection.evaluate, collection.site,
      fun item => evaluateBody_of_forall₂ (body item)]

theorem sameIn_of_agree {t : Tree ι} (agree : Scope.AgreeOn t.free scope scope') :
    SameIn scope scope' t t := by
  induction t generalizing scope scope' with
  | var site x =>
    have same : scope.get? x = scope'.get? x := agree x (by simp)
    exact ⟨rfl, by simp only [evaluate, Scope.find, same]⟩
  | element site tag attributes body ihA ihB =>
    simp only [Scope.AgreeOn, mem_free_element] at agree
    apply SameIn.element <;> apply List.forall₂_same.mpr
    case values => exact fun a ha => ⟨rfl, ihA a ha fun x hx => agree x (.inl ⟨a, ha, hx⟩)⟩
    case body   => exact fun t ht => ihB t ht fun x hx => agree x (.inr ⟨t, ht, hx⟩)
  | loop site binder collection body ihC ihB =>
    simp only [Scope.AgreeOn, mem_free_loop] at agree
    apply SameIn.loop
    case collection => exact ihC fun x hx => agree x (.inl hx)
    case body       =>
      intro item
      apply List.forall₂_same.mpr
      intro t ht
      apply ihB t ht
      exact Scope.agreeOn_bind (fun x hx ne => agree x (.inr ⟨⟨t, ht, hx⟩, ne⟩)) item

theorem evaluate_bind_of_not_mem_free {t : Tree ι} {x : String} (h : x ∉ t.free) (scope : Scope)
    (v : Value) : t.evaluate (scope.bind x v) = t.evaluate scope := by
  refine (sameIn_of_agree fun y hy => ?_).evaluate
  have ne : x ≠ y := fun eq => h (eq ▸ hy)
  simp only [Scope.get?_bind, if_neg ne]

theorem evaluate_of_agree {t : Tree ι} (agree : Scope.AgreeOn t.free scope scope') :
    t.evaluate scope = t.evaluate scope' :=
  (sameIn_of_agree agree).evaluate

-- Both loops bind the name, and the inner one has it for its collection too. That the scopes bind it
-- differently is not seen, and the item that is no list fails in the same place.
theorem evaluate_of_agree_shadowed :
    let inner : Tree Span := ⟨⟨16, 34⟩, .loop "x" ⟨⟨25, 26⟩, .var "x"⟩ [⟨⟨28, 29⟩, .var "x"⟩]⟩
    let t : Tree Span := ⟨⟨1, 39⟩, .loop "x" ⟨⟨10, 12⟩, .var "xs"⟩ [inner]⟩
    let scope := Scope.empty.bind "xs" (.list [.list [.text "a"], .text "b"])
    t.evaluate (scope.bind "x" (.list [])) = .error ⟨.notList, ⟨25, 26⟩⟩ := by
  intro inner t scope
  have agree : Scope.AgreeOn t.free (scope.bind "x" (.list [])) scope := by decide +kernel
  have failed : t.evaluate scope = .error ⟨.notList, ⟨25, 26⟩⟩ := by decide +kernel
  exact (evaluate_of_agree agree).trans failed

end Tree
end MarkupTemplate
