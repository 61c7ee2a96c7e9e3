import MarkupTemplate.Proofs.Grammar.Located

/-!
Derivations of which only the front was read. Open constructs are listed as the frames of a state
are, the innermost first, and `frames` and `Stage.state` are what the parser keeps of them.
-/

namespace MarkupTemplate

-- The start of a construct up to where its body begins.
inductive Opening where
  | element (start : TagStart) (gap : Blanks)
  | loop (start : LoopStart)

-- A construct that was not closed yet, with the part of its body that was read.
structure Unfinished where
  opening : Opening
  body : List Derivation

-- How far the derivation of a source has come. In `tag` the innermost tag is not closed yet.
inductive Stage where
  | tag (start : TagStart) (outer : List Unfinished)
  | body (unfinished : List Unfinished)

namespace TagStart

def push (s : TagStart) (b : Blanks) (a : Assignment)
    (parted : s.attributes = [] → b.text ≠ []) : TagStart where
  before     := s.before
  tag        := s.tag
  attributes := s.attributes ++ [(b, a)]
  parted     := by
    cases eq : s.attributes with
    | nil  => simpa using parted eq
    | cons => simpa [eq] using s.parted

variable {s : TagStart} {b : Blanks} {a : Assignment} {parted : s.attributes = [] → b.text ≠ []}

theorem text_push : (s.push b a parted).text = s.text ++ (b.text ++ a.text) := by
  simp [push, text]

theorem attributesAt_push (p : Nat) : (s.push b a parted).attributesAt p =
    (s.attributesAt p).insert a.name.string (a.entry (p + Bytes.length (s.text ++ b.text))).2 := by
  simp only [push, attributesAt, Assignment.entries_append, Assignment.entries,
    Attributes.ofList_concat, text, Bytes.length_append, Nat.add_assoc]
  rfl

end TagStart

namespace Opening

def text : Opening → List Char
  | element start gap => start.text ++ gap.text ++ ['>']
  | loop start => start.text

def opened (p : Nat) : Opening → Opened
  | element start _ => .element (start.start p) start.tag.string (start.attributesAt p)
  | loop start => .loop (start.start p) start.header.binder.string (start.collectionAt p)

def IsLoop : Opening → Prop
  | element .. => False
  | loop _ => True

end Opening

namespace Unfinished

def text (u : Unfinished) : List Char :=
  u.opening.text ++ Derivation.textAll u.body

def frame (p : Nat) (u : Unfinished) : Frame :=
  ⟨u.opening.opened p, (Derivation.trees (p + Bytes.length u.opening.text) u.body).reverse⟩

structure Proper (u : Unfinished) : Prop where
  body    : ∀ n ∈ u.body, n.Proper
  not_end : u.opening.IsLoop → ∀ n ∈ u.body, ¬n.IsReferenceTo "end"

theorem proper_nil (o : Opening) : Proper ⟨o, []⟩ where
  body      := nofun
  not_end _ := nofun

def push (u : Unfinished) (n : Derivation) : Unfinished :=
  { u with body := u.body ++ [n] }

theorem text_push (u : Unfinished) (n : Derivation) : (u.push n).text = u.text ++ n.text := by
  simp [push, text, Derivation.textAll]

theorem frame_push (u : Unfinished) (n : Derivation) (p : Nat) :
    (u.push n).frame p = (u.frame p).push (n.tree (p + Bytes.length u.text)) := by
  simp [push, frame, Frame.push, Derivation.trees_append, Derivation.trees, text, Nat.add_assoc]

theorem Proper.push {u : Unfinished} {n : Derivation} (h : u.Proper) (proper : n.Proper)
    (accepted : u.opening.IsLoop → ¬n.IsReferenceTo "end") : (u.push n).Proper where
  body := by
    simpa [Unfinished.push, or_imp, forall_and] using ⟨h.body, proper⟩
  not_end loop := by
    simpa [Unfinished.push, or_imp, forall_and] using ⟨h.not_end loop, accepted loop⟩

-- A name in braces closes the innermost construct, or else is a node in its body.
theorem closes_or_accepted (us : List Unfinished) (x : Name) :
    (∃ start body outer, us = ⟨.loop start, body⟩ :: outer ∧ x = .end_) ∨
      ∀ u ∈ us.head?, u.opening.IsLoop → x.string ≠ "end" := by
  match us with
  | [] => exact .inr nofun
  | ⟨.element .., _⟩ :: _ =>
    right
    rintro _ ⟨⟩ loop
    exact loop.elim
  | ⟨.loop start, body⟩ :: outer =>
    by_cases eq : x = .end_
    case pos => exact .inl ⟨start, body, outer, rfl, eq⟩
    case neg => exact .inr fun _ _ _ => mt Name.string_eq_end_iff.mp eq

-- The text of all open constructs, and the frames that they leave if the text starts at `p`.
def written : List Unfinished → List Char
  | [] => []
  | u :: us => written us ++ u.text

def frames (p : Nat) : List Unfinished → List Frame
  | [] => []
  | u :: us => u.frame (p + Bytes.length (written us)) :: frames p us

end Unfinished

namespace Stage

open Unfinished

def state (p : Nat) : Stage → State
  | tag start outer =>
    let q := p + Bytes.length (written outer)
    .opening (start.start q) start.tag.string (start.attributesAt q) (frames p outer)
  | body us => .content (frames p us)

-- The text of the stage leads from `source` to `c`. As long as a tag has no attributes it ends
-- where its name does.
inductive Reached (source : Cursor) : Stage → Cursor → Prop where
  | tag {start us c} :
    source.Reads (written us ++ start.text) c → (∀ u ∈ us, u.Proper) →
      (start.attributes = [] → ¬Leads isAlphabetic c.rest) → Reached source (.tag start us) c
  | body {us c} :
    source.Reads (written us) c → (∀ u ∈ us, u.Proper) → Reached source (.body us) c

end Stage

-- Either a stage is reached, or the text of a whole node was read.
inductive Progress.Reached (source : Cursor) : Progress → Cursor → Prop where
  | reading {stage : Stage} {c} :
    stage.Reached source c → Reached source (.reading (stage.state source.position)) c
  | finished {n : Derivation} {c} :
    n.Proper → source.Reads n.text c → Reached source (.finished (n.tree source.position)) c

end MarkupTemplate
