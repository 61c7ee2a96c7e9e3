import MarkupTemplate.Proofs.Grammar.Basic
import MarkupTemplate.Parser.State

/-!
Derivations in a source. A derivation whose text starts at byte position `p` stands for a tree
with spans, `tree p`, and that tree has the shape of the derivation wherever it stands.
-/

namespace MarkupTemplate

theorem Tree.shape_eq {ι : Type} (t : Tree ι) : t.shape = ⟨(), t.node.map Tree.shape⟩ :=
  t.map_eq _

-- The tree of a name that starts at `p`.
def Name.variable (n : Name) (p : Nat) : Tree Span :=
  ⟨⟨p, p + Bytes.length n.text⟩, .var n.string⟩

def Braced.variable (b : Braced) (p : Nat) : Tree Span :=
  b.name.variable (p + Bytes.length (['{'] ++ b.left.text))

namespace Assignment

def entry (a : Assignment) (p : Nat) : String × Tree Span :=
  (a.name.string, a.value.variable (p + Bytes.length (a.name.text ++ a.beforeEquals.text ++ ['='] ++
    a.afterEquals.text)))

def entries : Nat → List (Blanks × Assignment) → List (String × Tree Span)
  | _, [] => []
  | p, (b, a) :: as =>
    a.entry (p + Bytes.length b.text) :: entries (p + Bytes.length (b.text ++ a.text)) as

theorem entries_append (p : Nat) (as bs : List (Blanks × Assignment)) :
    entries p (as ++ bs) =
      entries p as ++ entries (p + Bytes.length (as.flatMap fun a => a.1.text ++ a.2.text)) bs := by
  induction as generalizing p with
  | nil => rfl
  | cons a as ih => simp [entries, ih, Nat.add_assoc]

end Assignment

namespace TagStart

def start (s : TagStart) (p : Nat) : Nat :=
  p + Bytes.length s.before.text

def attributesAt (s : TagStart) (p : Nat) : Attributes (Tree Span) :=
  .ofList <|
    Assignment.entries (p + Bytes.length (s.before.text ++ ['<'] ++ s.tag.text)) s.attributes

end TagStart

def LoopHeader.collectionAt (h : LoopHeader) (p : Nat) : Tree Span :=
  h.collection.variable (p + Bytes.length (h.afterFor.text ++ h.binder.text ++ h.beforeIn.text ++
    ['i', 'n'] ++ h.afterIn.text))

namespace LoopStart

def start (s : LoopStart) (p : Nat) : Nat :=
  p + Bytes.length (s.before.text ++ ['{'] ++ s.left.text)

def collectionAt (s : LoopStart) (p : Nat) : Tree Span :=
  s.header.collectionAt (s.start p + Bytes.length ['f', 'o', 'r'])

end LoopStart

namespace Derivation

mutual

def tree : Nat → Derivation → Tree Span
  | p, reference before name => name.variable (p + Bytes.length before.text)
  | p, element start gap body last =>
    ⟨⟨start.start p, p + Bytes.length (element start gap body last).text⟩,
      .element start.tag.string (start.attributesAt p)
        (trees (p + Bytes.length (start.text ++ gap.text ++ ['>'])) body)⟩
  | p, loop start body last left _ =>
    ⟨⟨start.start p, p + Bytes.length (start.text ++ textAll body ++ last.text ++ ['{'] ++
        left.text ++ ['e', 'n', 'd'])⟩,
      .loop start.header.binder.string (start.collectionAt p)
        (trees (p + Bytes.length start.text) body)⟩

def trees : Nat → List Derivation → List (Tree Span)
  | _, [] => []
  | p, d :: ds => d.tree p :: trees (p + Bytes.length d.text) ds

end

@[simp]
theorem textAll_append (ds es : List Derivation) :
    textAll (ds ++ es) = textAll ds ++ textAll es := by
  induction ds with
  | nil => rfl
  | cons d ds ih => simp [textAll, ih]

theorem trees_append (p : Nat) (ds es : List Derivation) :
    trees p (ds ++ es) = trees p ds ++ trees (p + Bytes.length (textAll ds)) es := by
  induction ds generalizing p with
  | nil => rfl
  | cons d ds ih => simp [trees, textAll, ih, Nat.add_assoc]

theorem shape_attributesAt (s : TagStart) (p : Nat) :
    (s.attributesAt p).mapEntries Tree.shape =
      Attributes.settled (s.attributes.map fun a =>
        (a.2.name.string, ⟨(), .var a.2.value.name.string⟩)) := by
  rw [TagStart.attributesAt, Attributes.mapEntries_ofList, Attributes.ofList_eq_settled]
  congr 1
  generalize p + Bytes.length _ = q
  generalize s.attributes = as
  induction as generalizing q with
  | nil => rfl
  | cons a as ih =>
    simp only [Assignment.entries, Attributes.mapEntries, List.map_cons] at ih ⊢
    rw [ih]
    rfl

mutual

theorem shape_tree : (d : Derivation) → (p : Nat) → (d.tree p).shape = d.shape
  | reference .., _ => rfl
  | element start gap body last, p => by
    have body := shapes_trees body (p + Bytes.length (start.text ++ gap.text ++ ['>']))
    rw [tree, Tree.shape_eq, Node.map, shape_attributesAt, body, shape]
  | loop start body last left right, p => by
    have body := shapes_trees body (p + Bytes.length start.text)
    rw [tree, Tree.shape_eq, Node.map, body, shape]
    rfl

theorem shapes_trees : (ds : List Derivation) → (p : Nat) → (trees p ds).map Tree.shape = shapes ds
  | [], _ => rfl
  | d :: ds, p => by
    rw [trees, List.map_cons, shape_tree d, shapes_trees ds, shapes]

end

end Derivation
end MarkupTemplate
