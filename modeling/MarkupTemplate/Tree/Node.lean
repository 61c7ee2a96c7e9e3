import MarkupTemplate.Tree.Attributes

/-!
One construct of a template, over any type of parts: a variable, an element with attributes and
a body, or a loop that binds a name to each item of a collection. The parts are visited in the
order of `children`; `children_map` and `children_numbered` say so.
-/

namespace MarkupTemplate

inductive Node (α : Type) where
  | var (name : String)
  | element (tag : String) (attributes : List (String × α)) (body : List α)
  | loop (binder : String) (collection : α) (body : List α)
deriving DecidableEq, Repr

namespace Node

variable {α β : Type}

def children : Node α → List α
  | var _ => []
  | element _ attributes body => attributes.map (·.2) ++ body
  | loop _ collection body => collection :: body

def map (f : α → β) : Node α → Node β
  | var name => var name
  | element tag attributes body => element tag (Attributes.mapEntries f attributes) (body.map f)
  | loop binder collection body => loop binder (f collection) (body.map f)

-- Effects happen in the order of `children`.
def mapM {m : Type → Type} [Monad m] (f : α → m β) : Node α → m (Node β)
  | var name => return var name
  | element tag attributes body => do
    let attributes ← attributes.mapM fun a => do return (a.1, ← f a.2)
    return element tag attributes (← body.mapM f)
  | loop binder collection body => do
    let collection ← f collection
    return loop binder collection (← body.mapM f)

def number (a : α) : StateM Nat (α × Nat) :=
  modifyGet fun k => ((a, k), k + 1)

-- Every part together with its place among the children, counted from one.
def numbered (n : Node α) : Node (α × Nat) :=
  (Id.run ((n.mapM number).run 1)).1

@[simp]
theorem children_map (f : α → β) (n : Node α) : (n.map f).children = n.children.map f := by
  cases n <;> simp [map, children, Attributes.mapEntries]

@[simp]
theorem run_number (a : α) (k : Nat) : (number a).run k = pure ((a, k), k + 1) :=
  rfl

theorem run_mapM_number (as : List α) (k : Nat) :
    (as.mapM number).run k = pure (as.zipIdx k, k + as.length) := by
  induction as generalizing k with
  | nil => rfl
  | cons a as ih => simp [ih, Nat.add_comm, Nat.add_left_comm]

theorem run_mapM_number_entries (as : Attributes α) (k : Nat) :
    (as.mapM fun a => Prod.mk a.1 <$> number a.2).run k =
      pure ((as.zipIdx k).map fun a => (a.1.1, a.1.2, a.2), k + as.length) := by
  induction as generalizing k with
  | nil => rfl
  | cons a as ih => simp [ih, Nat.add_comm, Nat.add_left_comm]

theorem children_numbered (n : Node α) : n.numbered.children = n.children.zipIdx 1 := by
  cases n with
  | var => rfl
  | element =>
    simp [numbered, mapM, run_mapM_number_entries, run_mapM_number, children, List.zipIdx_append,
      List.zipIdx_map, Function.comp_def]
  | loop => simp [numbered, mapM, run_mapM_number, children]

end Node
end MarkupTemplate
