import MarkupTemplate.Proofs.Grammar.Located
import MarkupTemplate.Source.Span

/-!
What is written further on in a source has the same tree, with all spans moved by the same distance.
-/

namespace MarkupTemplate

def Span.shift (k : Nat) (s : Span) : Span :=
  ⟨s.start + k, s.stop + k⟩

theorem Name.variable_add (n : Name) (p k : Nat) :
    n.variable (p + k) = (n.variable p).map (.shift k) := by
  simp [Name.variable, Tree.map, Span.shift, Nat.add_right_comm]

theorem Assignment.entries_add (p k : Nat) (as : List (Blanks × Assignment)) :
    entries (p + k) as = Attributes.mapEntries (Tree.map (.shift k)) (entries p as) := by
  induction as generalizing p with
  | nil => rfl
  | cons a as ih =>
    simp only [entries, entry, Braced.variable, Nat.add_right_comm p k, ih]
    simp only [Attributes.mapEntries, List.map_cons, Nat.add_right_comm _ k, Name.variable_add]

theorem TagStart.attributesAt_add (s : TagStart) (p k : Nat) :
    s.attributesAt (p + k) = (s.attributesAt p).mapEntries (Tree.map (.shift k)) := by
  rw [attributesAt, attributesAt, Attributes.mapEntries_ofList, Nat.add_right_comm,
    Assignment.entries_add]

theorem LoopStart.collectionAt_add (s : LoopStart) (p k : Nat) :
    s.collectionAt (p + k) = (s.collectionAt p).map (.shift k) := by
  simp only [collectionAt, LoopHeader.collectionAt, start, Nat.add_right_comm _ k,
    Name.variable_add]

namespace Derivation

mutual

theorem tree_add : (d : Derivation) → (p k : Nat) → d.tree (p + k) = (d.tree p).map (.shift k)
  | reference before name, p, k => by
    simp only [tree, Braced.variable, Nat.add_right_comm _ k, Name.variable_add]
  | element start gap body last, p, k => by
    rw [tree, tree, Tree.map_eq, start.attributesAt_add]
    simp only [TagStart.start, Nat.add_right_comm p k, trees_add body _ k]
    rfl
  | loop start body last left right, p, k => by
    rw [tree, tree, Tree.map_eq, start.collectionAt_add]
    simp only [LoopStart.start, Nat.add_right_comm p k, trees_add body _ k]
    rfl

theorem trees_add : (ds : List Derivation) → (p k : Nat) →
    trees (p + k) ds = (trees p ds).map (Tree.map (.shift k))
  | [], _, _ => rfl
  | d :: ds, p, k => by
    rw [trees, trees, List.map_cons, tree_add d, Nat.add_right_comm, trees_add ds]

end

end Derivation
end MarkupTemplate
