import MarkupTemplate.Tree.Basic

/-!
The canonical source text of a tree: one blank inside each pair of braces, one before each
attribute, and none between the parts of a body. Only the shape of the tree is printed.
-/

namespace MarkupTemplate.Tree

variable {ι κ : Type}

-- Where braces are written anyway, a variable is only its name.
def bare (t : Tree ι) (printed : String) : String :=
  match t.node with
  | .var name => name
  | _ => printed

mutual

def print : Tree ι → String
  | ⟨_, .var name⟩ => "\x7b " ++ name ++ " \x7d"
  | ⟨_, .element tag attributes body⟩ =>
    "<" ++ tag ++ printAttributes attributes ++ ">" ++ printBody body ++ "</" ++ tag ++ ">"
  | ⟨_, .loop binder collection body⟩ =>
    "\x7b for " ++ binder ++ " in " ++ bare collection collection.print ++ " \x7d" ++
      printBody body ++ "\x7b end \x7d"

def printAttributes : List (String × Tree ι) → String
  | [] => ""
  | (name, t) :: as =>
    " " ++ name ++ "=\x7b " ++ bare t t.print ++ " \x7d" ++ printAttributes as

def printBody : List (Tree ι) → String
  | [] => ""
  | t :: ts => t.print ++ printBody ts

end

@[simp]
theorem bare_map (f : ι → κ) (t : Tree ι) (printed : String) :
    bare (t.map f) printed = bare t printed := by
  obtain ⟨_, _ | _ | _⟩ := t <;> rfl

@[simp]
theorem print_map (f : ι → κ) (t : Tree ι) : (t.map f).print = t.print := by
  induction t with
  | var => rfl
  | element _ _ _ _ ihA ihB => simp [Tree.map, print, attributes_map ihA, body_map ihB]
  | loop _ _ _ _ ihC ihB => simp [Tree.map, print, ihC, body_map ihB]
where
  attributes_map : {as : List (String × Tree ι)} → (∀ a ∈ as, (a.2.map f).print = a.2.print) →
      printAttributes (Attributes.mapEntries (Tree.map f) as) = printAttributes as
    | [], _ => rfl
    | (name, t) :: as, h => by
      obtain ⟨ht, has⟩ := List.forall_mem_cons.mp h
      simp only [printAttributes, Attributes.mapEntries, List.map_cons, bare_map, ht]
      rw [← attributes_map has, Attributes.mapEntries]
  body_map : {ts : List (Tree ι)} → (∀ t ∈ ts, (t.map f).print = t.print) →
      printBody (ts.map (Tree.map f)) = printBody ts
    | [], _ => rfl
    | t :: ts, h => by
      obtain ⟨ht, hts⟩ := List.forall_mem_cons.mp h
      simp [printBody, ht, body_map hts]

end MarkupTemplate.Tree
