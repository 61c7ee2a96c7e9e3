import MarkupTemplate.Proofs.Attributes
import MarkupTemplate.Proofs.Grammar.Word
import MarkupTemplate.Tree.Basic

/-!
The grammar of templates. A derivation has one constructor for each kind of node, and its fields
are what the production lists: words, and derivations of the nodes below. `text` writes down what
is derived and `shape` the tree that it means.
-/

namespace MarkupTemplate

-- `{ ws* name ws* }`
structure Braced where
  left : Blanks
  name : Name
  right : Blanks

-- `name ws* = ws* { ws* name ws* }`
structure Assignment where
  name : Name
  beforeEquals : Blanks
  afterEquals : Blanks
  value : Braced

-- `ws* < name (ws* assignment)*`, where the first assignment must be kept apart from the tag.
structure TagStart where
  before : Blanks
  tag : Name
  attributes : List (Blanks × Assignment)
  parted : ∀ a ∈ attributes.head?, a.1.text ≠ []

-- `ws+ name ws+ in ws* name ws* }`
structure LoopHeader where
  afterFor : Gap
  binder : Name
  beforeIn : Gap
  afterIn : Blanks
  collection : Name
  right : Blanks

-- `ws* { ws* for` and the header.
structure LoopStart where
  before : Blanks
  left : Blanks
  header : LoopHeader

-- A node, with the blanks before it. No name is ever followed by a letter.
inductive Derivation where
  | reference (before : Blanks) (name : Braced)
  | element (start : TagStart) (gap : Blanks) (body : List Derivation) (last : Blanks)
  | loop (start : LoopStart) (body : List Derivation) (last left right : Blanks)

def Braced.text (b : Braced) : List Char :=
  ['{'] ++ b.left.text ++ b.name.text ++ b.right.text ++ ['}']

def Assignment.text (a : Assignment) : List Char :=
  a.name.text ++ a.beforeEquals.text ++ ['='] ++ a.afterEquals.text ++ a.value.text

def TagStart.text (s : TagStart) : List Char :=
  s.before.text ++ ['<'] ++ s.tag.text ++ s.attributes.flatMap fun a => a.1.text ++ a.2.text

-- The start of a tag without attributes.
def TagStart.bare (before : Blanks) (tag : Name) : TagStart where
  before     := before
  tag        := tag
  attributes := []
  parted     := nofun

def LoopHeader.text (h : LoopHeader) : List Char :=
  h.afterFor.text ++ h.binder.text ++ h.beforeIn.text ++ ['i', 'n'] ++ h.afterIn.text ++
    h.collection.text ++ h.right.text ++ ['}']

def LoopStart.text (s : LoopStart) : List Char :=
  s.before.text ++ ['{'] ++ s.left.text ++ ['f', 'o', 'r'] ++ s.header.text

namespace Derivation

mutual

def text : Derivation → List Char
  | reference before name => before.text ++ name.text
  | element start gap body last =>
    start.text ++ gap.text ++ ['>'] ++ textAll body ++ last.text ++
      ['<', '/'] ++ start.tag.text ++ ['>']
  | loop start body last left right =>
    start.text ++ textAll body ++ last.text ++
      ['{'] ++ left.text ++ ['e', 'n', 'd'] ++ right.text ++ ['}']

def textAll : List Derivation → List Char
  | [] => []
  | d :: ds => d.text ++ textAll ds

end

mutual

def shape : Derivation → Shape
  | reference _ name => ⟨(), .var name.name.string⟩
  | element start _ body _ =>
    ⟨(), .element start.tag.string
      (Attributes.settled (start.attributes.map fun a =>
        (a.2.name.string, ⟨(), .var a.2.value.name.string⟩)))
      (shapes body)⟩
  | loop start body _ _ _ =>
    ⟨(), .loop start.header.binder.string ⟨(), .var start.header.collection.string⟩ (shapes body)⟩

def shapes : List Derivation → List Shape
  | [] => []
  | d :: ds => d.shape :: shapes ds

end

-- The derivation of a name in braces that is `x`.
def IsReferenceTo (x : String) : Derivation → Prop
  | reference _ name => name.name.string = x
  | _ => False

-- The word in the braces decides what they are: `for` starts a loop wherever a node may stand, and
-- `end` ends the innermost construct if that is a loop, and is a name like any other elsewhere.
inductive Proper : Derivation → Prop where
  | reference {before name} :
    name.name.string ≠ "for" → Proper (.reference before name)
  | element {start gap body last} :
    (∀ d ∈ body, Proper d) → Proper (.element start gap body last)
  | loop {start body last left right} :
    (∀ d ∈ body, Proper d) → (∀ d ∈ body, ¬IsReferenceTo "end" d) →
      Proper (.loop start body last left right)

end Derivation

-- A template is one node with blanks around it.
def Derives (source : String) (t : Shape) : Prop :=
  ∃ (d : Derivation) (after : Blanks),
    d.Proper ∧ source.toList = d.text ++ after.text ∧ d.shape = t

end MarkupTemplate
