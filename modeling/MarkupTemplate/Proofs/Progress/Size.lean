import Mathlib.Algebra.Ring.Nat
import MarkupTemplate.Proofs.Grammar.Acceptance

/-!
How large a tree can be that was read from a text. Each node takes three characters of its own, for
even a variable in a body has its two braces, and an attribute takes five.
-/

namespace MarkupTemplate

variable {ι α : Type}

namespace Tree

mutual

-- The number of nodes. Values of attributes and collections of loops count like all others.
def size : Tree ι → Nat
  | ⟨_, .var _⟩                     => 1
  | ⟨_, .element _ attributes body⟩ => 1 + sizeAttributes attributes + sizeBody body
  | ⟨_, .loop _ collection body⟩    => 1 + collection.size + sizeBody body

def sizeAttributes : List (String × Tree ι) → Nat
  | []           => 0
  | (_, t) :: as => t.size + sizeAttributes as

def sizeBody : List (Tree ι) → Nat
  | []      => 0
  | t :: ts => t.size + sizeBody ts

end

theorem sizeAttributes_eq (as : List (String × Tree ι)) :
    sizeAttributes as = (as.map (·.2.size)).sum := by
  induction as with
  | nil => rfl
  | cons a as ih => rw [sizeAttributes, ih, List.map_cons, List.sum_cons]

theorem sizeBody_eq (ts : List (Tree ι)) : sizeBody ts = (ts.map size).sum := by
  induction ts with
  | nil => rfl
  | cons t ts ih => rw [sizeBody, ih, List.map_cons, List.sum_cons]

end Tree

namespace Attributes

theorem sum_insert_le (f : α → Nat) (x : String) (a : α) (as : Attributes α) :
    ((as.insert x a).map (f ·.2)).sum ≤ (as.map (f ·.2)).sum + f a := by
  induction as with
  | nil => simp [insert]
  | cons b bs ih =>
    rw [insert]
    split <;> simp only [List.map_cons, List.sum_cons] <;> omega

-- Values that are replaced by later ones do not count.
theorem sum_ofList_le (f : α → Nat) (as : List (String × α)) :
    ((ofList as).map (f ·.2)).sum ≤ (as.map (f ·.2)).sum := by
  induction as using List.reverseRecOn with
  | nil => exact Nat.le_refl _
  | append_singleton as a ih =>
    have := sum_insert_le f a.1 a.2 (ofList as)
    rw [ofList_concat, List.map_append, List.sum_append_nat, List.map_singleton, List.sum_singleton]
    omega

end Attributes

theorem Name.length_pos (n : Name) : 0 < n.text.length :=
  List.length_pos_iff.mpr n.nonempty

theorem Assignment.five_le_length (a : Assignment) : 5 ≤ a.text.length := by
  have := a.name.length_pos
  have := a.value.name.length_pos
  simp only [text, Braced.text, List.length_append, List.length_cons, List.length_nil]
  omega

theorem Assignment.size_entries_le (p : Nat) (as : List (Blanks × Assignment)) :
    3 * ((entries p as).map (·.2.size)).sum ≤
      (as.flatMap fun a => a.1.text ++ a.2.text).length := by
  induction as generalizing p with
  | nil => exact Nat.le_refl _
  | cons a as ih =>
    obtain ⟨b, a⟩ := a
    have := ih (p + Bytes.length (b.text ++ a.text))
    have := a.five_le_length
    have one : (a.entry (p + Bytes.length b.text)).2.size = 1 := rfl
    simp only [entries, List.map_cons, List.sum_cons, List.flatMap_cons, List.length_append, one]
    omega

theorem TagStart.size_attributesAt_le (s : TagStart) (p : Nat) :
    3 * ((s.attributesAt p).map (·.2.size)).sum ≤ s.text.length := by
  have kept := Attributes.sum_ofList_le Tree.size <|
    Assignment.entries (p + Bytes.length (s.before.text ++ ['<'] ++ s.tag.text)) s.attributes
  have written := Assignment.size_entries_le
    (p + Bytes.length (s.before.text ++ ['<'] ++ s.tag.text)) s.attributes
  rw [attributesAt, text, List.length_append]
  omega

theorem LoopStart.six_le_length (s : LoopStart) : 6 ≤ s.text.length := by
  simp only [text, LoopHeader.text, List.length_append, List.length_cons, List.length_nil]
  omega

namespace Derivation

mutual

theorem size_tree_le : (d : Derivation) → (p : Nat) → 3 * (d.tree p).size ≤ d.text.length
  | reference before b, p => by
    have := b.name.length_pos
    rw [tree, Braced.variable, Name.variable, Tree.size]
    simp only [text, Braced.text, List.length_append, List.length_cons, List.length_nil]
    omega
  | element start gap body last, p => by
    have values := start.size_attributesAt_le p
    have nodes := size_trees_le body (p + Bytes.length (start.text ++ gap.text ++ ['>']))
    rw [tree, Tree.size, Tree.sizeAttributes_eq, Tree.sizeBody_eq]
    simp only [text, List.length_append, List.length_cons, List.length_nil] at nodes ⊢
    omega
  | loop start body last left right, p => by
    have header := start.six_le_length
    have nodes := size_trees_le body (p + Bytes.length start.text)
    have one : (start.collectionAt p).size = 1 := rfl
    rw [tree, Tree.size, Tree.sizeBody_eq, one]
    simp only [text, List.length_append, List.length_cons, List.length_nil]
    omega

theorem size_trees_le : (ds : List Derivation) → (p : Nat) →
    3 * ((trees p ds).map Tree.size).sum ≤ (textAll ds).length
  | [], _      => Nat.le_refl _
  | d :: ds, p => by
    have first := size_tree_le d p
    have rest := size_trees_le ds (p + Bytes.length d.text)
    simp only [trees, textAll, List.map_cons, List.sum_cons, List.length_append]
    omega

end

end Derivation

theorem Tree.size_le_of_parse {source : String} {t : Tree Span} (h : parse source = .ok t) :
    t.size ≤ source.utf8ByteSize / 3 := by
  obtain ⟨n, after, _, text, rfl⟩ := parse_eq_ok_iff.mp h
  have size := n.size_tree_le 0
  have bytes := Bytes.length_le_length source.toList
  rw [Bytes.length_toList] at bytes
  rw [text, List.length_append] at bytes
  omega

end MarkupTemplate
