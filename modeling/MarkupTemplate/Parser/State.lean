import MarkupTemplate.Parser.Scan
import MarkupTemplate.Tree.Basic

/-!
What a parser has open while it reads, and the single step that reads on. The innermost open
construct stands first among the frames, and the body read so far of each is in reverse order.
-/

namespace MarkupTemplate

-- The start of a construct whose end was not read yet.
inductive Opened where
  | element (start : Nat) (tag : String) (attributes : Attributes (Tree Span))
  | loop (start : Nat) (binder : String) (collection : Tree Span)

structure Frame where
  opened : Opened
  body : List (Tree Span)

namespace Frame

def push (f : Frame) (t : Tree Span) : Frame :=
  { f with body := t :: f.body }

def close (f : Frame) (stop : Nat) : Tree Span :=
  match f.opened with
  | .element start tag attributes => ⟨⟨start, stop⟩, .element tag attributes f.body.reverse⟩
  | .loop start binder collection => ⟨⟨start, stop⟩, .loop binder collection f.body.reverse⟩

end Frame

namespace Scan

def reference : Scan (Tree Span) := do
  let (x, span) ← name .identifier
  return ⟨span, .var x⟩

def assignment : Scan (String × Tree Span) := do
  let (x, _) ← name .attributeName
  blanks
  literal "="
  blanks
  literal "\x7b"
  blanks
  let value ← reference
  blanks
  literal "\x7d"
  return (x, value)

-- What follows the word `for`.
def loopHeader : Scan (String × Tree Span) := do
  blanks
  let (binder, _) ← name .identifier
  blanks
  literal "in"
  blanks
  let collection ← reference
  blanks
  literal "\x7d"
  return (binder, collection)

theorem reference_consumes : reference.Consumes 1 :=
  (name_consumes _).bind fun _ => .pure _

theorem assignment_consumes : assignment.Consumes 5 :=
  (name_consumes _).bind fun _ => blanks_consumes.bind fun _ =>
  (literal_consumes "=").bind fun _ => blanks_consumes.bind fun _ =>
  (literal_consumes "\x7b").bind fun _ => blanks_consumes.bind fun _ =>
  reference_consumes.bind fun _ => blanks_consumes.bind fun _ =>
  (literal_consumes "\x7d").bind fun _ => .pure _

theorem loopHeader_consumes : loopHeader.Consumes 5 :=
  blanks_consumes.bind fun _ => (name_consumes _).bind fun _ => blanks_consumes.bind fun _ =>
  (literal_consumes "in").bind fun _ => blanks_consumes.bind fun _ =>
  reference_consumes.bind fun _ => blanks_consumes.bind fun _ =>
  (literal_consumes "\x7d").bind fun _ => .pure _

end Scan

-- Either in a start tag, after its name or an attribute, or in the body of the innermost frame.
-- Without any frame the body is the whole template.
inductive State where
  | opening (start : Nat) (tag : String) (attributes : Attributes (Tree Span))
      (outer : List Frame)
  | content (frames : List Frame)

inductive Progress where
  | reading (s : State)
  | finished (t : Tree Span)

namespace State

open Scan

-- A complete node joins the body of the innermost frame, or is the template itself.
def complete (t : Tree Span) : List Frame → Progress
  | []         => .finished t
  | f :: outer => .reading (.content (f.push t :: outer))

-- Only directly inside a loop does `end` close anything. Anywhere else it is a variable.
def completeVariable (x : String) (span : Span) : List Frame → Progress
  | ⟨.loop start binder collection, body⟩ :: outer =>
    let f : Frame := ⟨.loop start binder collection, body⟩
    if x = "end" then complete (f.close span.stop) outer else complete ⟨span, .var x⟩ (f :: outer)
  | frames => complete ⟨span, .var x⟩ frames

def startTag (frames : List Frame) : Scan Progress := do
  let start ← position
  literal "<"
  let (tag, _) ← name .tagName
  return .reading (.opening start tag [] frames)

def braces (frames : List Frame) : Scan Progress := do
  literal "\x7b"
  blanks
  let (x, span) ← name .identifier
  if x = "for" then
    let (binder, collection) ← loopHeader
    return .reading (.content (⟨.loop span.start binder collection, []⟩ :: frames))
  else
    blanks
    literal "\x7d"
    return completeVariable x span frames

-- Nothing but tags and braces may stand in a body.
def item (frames : List Frame) : Scan Progress := do
  if ← sees "<" then
    startTag frames
  else if ← sees "\x7b" then
    braces frames
  else
    throw .unexpected

-- Reads up to the next change of state. A closing tag is recognised as a whole, so one that
-- closes another element, or has blanks in it, is an error where it starts.
def step : State → Scan Progress
  | opening start tag attributes outer => do
    blanks
    if ← sees ">" then
      literal ">"
      return .reading (.content (⟨.element start tag attributes, []⟩ :: outer))
    else
      let (x, value) ← assignment
      return .reading (.opening start tag (attributes.insert x value) outer)
  | content [] => do
    blanks
    item []
  | content (⟨.element start tag attributes, body⟩ :: outer) => do
    let f : Frame := ⟨.element start tag attributes, body⟩
    let closing := "</" ++ tag ++ ">"
    blanks
    if ← sees closing then
      literal closing
      return complete (f.close (← position)) outer
    else if (← atEnd) || (← sees "</") then
      throw (.unclosed tag)
    else
      item (f :: outer)
  | content (⟨.loop start binder collection, body⟩ :: outer) => do
    let f : Frame := ⟨.loop start binder collection, body⟩
    blanks
    if ← atEnd then
      throw (.missing "end")
    else
      item (f :: outer)

theorem startTag_consumes (frames : List Frame) : (startTag frames).Consumes 2 :=
  position_consumes.bind fun _ => (literal_consumes "<").bind fun _ =>
  (name_consumes _).bind fun _ => .pure _

theorem braces_consumes (frames : List Frame) : (braces frames).Consumes 3 :=
  (literal_consumes "\x7b").bind fun _ => blanks_consumes.bind fun _ =>
  (name_consumes _).bind fun _ => .ite
    ((loopHeader_consumes.bind fun _ => .pure _).weaken (by decide))
    (blanks_consumes.bind fun _ => (literal_consumes "\x7d").bind fun _ => .pure _)

theorem item_consumes (frames : List Frame) : (item frames).Consumes 2 :=
  (sees_consumes _).after fun _ => .ite (startTag_consumes _) <|
  (sees_consumes _).after fun _ => .ite ((braces_consumes _).weaken (by decide)) (.throw _)

theorem step_consumes : (s : State) → (step s).Consumes 1
  | opening .. =>
    blanks_consumes.after fun _ => (sees_consumes _).after fun _ => .ite
      ((literal_consumes ">").bind fun _ => .pure _)
      ((assignment_consumes.bind fun _ => .pure _).weaken (by decide))
  | content [] =>
    blanks_consumes.after fun _ => (item_consumes _).weaken (by decide)
  | content (⟨.element _ tag _, _⟩ :: _) =>
    blanks_consumes.after fun _ => (sees_consumes _).after fun _ => .ite
      (((literal_consumes ("</" ++ tag ++ ">")).bind fun _ =>
        position_consumes.bind fun _ => .pure _).weaken
          (by have : ">".length = 1 := rfl; simp; omega))
      (atEnd_consumes.after fun _ => (sees_consumes _).after fun _ =>
        .ite (.throw _) ((item_consumes _).weaken (by decide)))
  | content (⟨.loop .., _⟩ :: _) =>
    blanks_consumes.after fun _ => atEnd_consumes.after fun _ => .ite (.throw _)
      ((item_consumes _).weaken (by decide))

end State
end MarkupTemplate
