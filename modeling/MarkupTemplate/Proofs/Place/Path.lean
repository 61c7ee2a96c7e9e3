import MarkupTemplate.Tree.Basic

/-!
Paths from the root of a tree to the nodes in it. `at?_map` says that changing the sites of a tree
moves no node, so the same path leads to the same node in all trees of one shape.
-/

namespace MarkupTemplate

-- One step down: to the value of an attribute, to the collection of a loop, or into a body.
inductive Turn where
  | value (k : Nat)
  | collection
  | child (k : Nat)
deriving DecidableEq, Repr

namespace Node

variable {α β : Type}

def part? : Node α → Turn → Option α
  | element _ attributes _, .value k => attributes[k]?.map (·.2)
  | element _ _ body, .child k       => body[k]?
  | loop _ collection _, .collection => some collection
  | loop _ _ body, .child k          => body[k]?
  | _, _                             => none

-- The names that are bound anew behind a turn. A loop binds its name in its body alone.
def binds : Node α → Turn → List String
  | loop binder _ _, .child _ => [binder]
  | _, _                      => []

-- The turns lead to all parts of a node and to nothing else.
theorem mem_children_iff {n : Node α} {a : α} :
    a ∈ n.children ↔ ∃ turn, n.part? turn = some a where
  mp h := by
    cases n
    case var => cases h
    case element =>
      cases List.mem_append.mp h
      case inl h =>
        have ⟨b, hb, eq⟩ := List.mem_map.mp h
        have ⟨k, hk⟩ := List.mem_iff_getElem?.mp hb
        exact ⟨.value k, by simp [part?, hk, eq]⟩
      case inr h =>
        have ⟨k, hk⟩ := List.mem_iff_getElem?.mp h
        exact ⟨.child k, hk⟩
    case loop =>
      cases h
      case head   => exact ⟨.collection, rfl⟩
      case tail h =>
        have ⟨k, hk⟩ := List.mem_iff_getElem?.mp h
        exact ⟨.child k, hk⟩
  mpr := by
    intro ⟨turn, h⟩
    cases n <;> cases turn <;> simp only [part?, reduceCtorEq, Option.some.injEq] at h
    case element.value =>
      have ⟨b, hb, eq⟩ := Option.map_eq_some_iff.mp h
      exact List.mem_append_left _ (eq ▸ List.mem_map_of_mem (List.mem_of_getElem? hb))
    case element.child   => exact List.mem_append_right _ (List.mem_of_getElem? h)
    case loop.collection => exact h ▸ List.mem_cons_self
    case loop.child      => exact List.mem_cons_of_mem _ (List.mem_of_getElem? h)

@[simp]
theorem part?_map (f : α → β) (n : Node α) (turn : Turn) :
    (n.map f).part? turn = (n.part? turn).map f := by
  cases n <;> cases turn <;> simp [part?, map, Attributes.mapEntries, Function.comp_def]

end Node

namespace Tree

variable {ι κ : Type} {t u v : Tree ι} {turn : Turn} {path : List Turn}

def at? (t : Tree ι) : List Turn → Option (Tree ι)
  | []           => some t
  | turn :: path => (t.node.part? turn).bind fun u => u.at? path

-- The loops of these names have the node at the path in their bodies.
def binders (t : Tree ι) : List Turn → List String
  | []           => []
  | turn :: path => t.node.binds turn ++ ((t.node.part? turn).elim [] fun u => u.binders path)

theorem at?_cons_eq_some_iff :
    t.at? (turn :: path) = some v ↔ ∃ u, t.node.part? turn = some u ∧ u.at? path = some v := by
  simp [at?, Option.bind_eq_some_iff]

-- What passes to the parts of a node passes to all nodes below it.
theorem of_at? {P : Tree ι → Prop} (step : ∀ {t u}, P t → u ∈ t.node.children → P u) (h : P t)
    (here : t.at? path = some u) : P u := by
  induction path generalizing t with
  | nil => cases here; exact h
  | cons turn path ih =>
    have ⟨v, part, deeper⟩ := at?_cons_eq_some_iff.mp here
    exact ih (step h (Node.mem_children_iff.mpr ⟨turn, part⟩)) deeper

theorem binders_cons (h : t.node.part? turn = some u) :
    t.binders (turn :: path) = t.node.binds turn ++ u.binders path := by
  simp [binders, h]

theorem at?_map (f : ι → κ) (t : Tree ι) (path : List Turn) :
    (t.map f).at? path = (t.at? path).map (Tree.map f) := by
  induction path generalizing t with
  | nil => rfl
  | cons turn path ih =>
    simp only [at?, map_eq, Node.part?_map]
    cases h : t.node.part? turn
    case none => rfl
    case some => exact ih _

end Tree
end MarkupTemplate
