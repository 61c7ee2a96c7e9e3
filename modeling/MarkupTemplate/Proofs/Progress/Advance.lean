import Mathlib.Order.WellFounded
import MarkupTemplate.Proofs.Progress.Item
import MarkupTemplate.Proofs.Progress.Size
import MarkupTemplate.Proofs.Source.Boundary

/-!
The parser always moves on. From wherever in a source it stands, each step takes it further, each
attribute by five bytes at least, and each item by three. It stays within the source and between two
characters, so that it comes to an end on every source, template or not.
-/

namespace MarkupTemplate

open Scan State

namespace Cursor

-- The cursor stands between two characters of the source, or at an end of it.
def IsIn (source : String) (c : Cursor) : Prop :=
  ∃ front, (start source).Reads front c

-- From one place of the source to another, over at least `n` bytes.
structure Advances (source : String) (n : Nat) (c d : Cursor) : Prop where
  isIn    : d.IsIn source
  further : c.position + n ≤ d.position
  stop_le : d.position ≤ source.utf8ByteSize
  valid   : (⟨d.position⟩ : String.Pos.Raw).IsValid source

variable {source : String} {c d : Cursor} {read : List Char} {n : Nat}

theorem IsIn.advances (here : c.IsIn source) (reads : c.Reads read d) (le : n ≤ read.length) :
    Advances source n c d := by
  have ⟨front, before⟩ := here
  have ⟨text, position⟩ := start_reads_iff.mp (before.trans reads)
  have bytes := Bytes.length_le_length read
  refine ⟨⟨_, before.trans reads⟩, ?further, ?within, ?valid⟩
  case further =>
    rw [reads.position]
    omega
  case within =>
    rw [← Bytes.length_toList, text, position, Bytes.length_append _ d.rest]
    exact Nat.le_add_right _ _
  case valid => exact isValid_iff_exists_length.mpr ⟨_, _, text, position⟩

end Cursor

namespace State

variable {source : String} {c d : Cursor}

theorem five_le_of_step_opening {start start' : Nat} {tag tag' : String}
    {attributes attributes' : Attributes (Tree Span)} {outer outer' : List Frame}
    (h : step (.opening start tag attributes outer) c =
      .ok (.reading (.opening start' tag' attributes' outer')) d) :
    ∃ read, c.Reads read d ∧ 5 ≤ read.length := by
  obtain ⟨_, _, ⟨⟩⟩ | ⟨b, a, reads, _⟩ := step_opening_eq_ok_iff.mp h
  have := a.five_le_length
  exact ⟨_, reads, by rw [List.length_append]; omega⟩

theorem length_rest_lt_of_step {s : State} {q : Progress} (h : step s c = .ok q d) :
    d.rest.length < c.rest.length := by
  obtain ⟨_, reads, one⟩ := (step_consumes s).ok h
  have := reads.length_rest
  omega

-- A run that has come to `b` goes on at `a`.
def GoesOn (a b : State × Cursor) : Prop :=
  step b.1 b.2 = .ok (.reading a.1) a.2

theorem wellFounded_goesOn : WellFounded GoesOn :=
  (InvImage.wf (fun a : State × Cursor => a.2.rest.length) wellFounded_lt).mono
    fun _ _ => length_rest_lt_of_step

-- What is read from a cursor in a source, whatever is open there.
structure MovesOn (source : String) (c : Cursor) : Prop where
  reads_item : ∀ frames q d, Completes frames (item frames) c q d →
    c.Advances source 3 d ∧ q.Settles frames ∧ (item frames >>= Progress.resume) c = q.resume d
  ends_item : ∀ frames, (∃ q d, Completes frames (item frames) c q d) ∨
    ∃ cause d, (item frames >>= Progress.resume) c = .error cause d
  reads_pass : ∀ frames q d, Completes frames (step (.content frames)) c q d →
    c.Advances source 3 d ∧ run (.content frames) c = q.resume d
  ends_pass : ∀ frames, (∃ q d, Completes frames (step (.content frames)) c q d) ∨
    ∃ cause d, run (.content frames) c = .error cause d
  reads_attribute : ∀ start tag attributes outer start' tag' attributes' outer' d,
    step (.opening start tag attributes outer) c =
      .ok (.reading (.opening start' tag' attributes' outer')) d → c.Advances source 5 d
  reads_step : ∀ s q d, step s c = .ok q d → c.Advances source 1 d ∧
    source.utf8ByteSize - d.position < source.utf8ByteSize - c.position

theorem movesOn (here : c.IsIn source) : MovesOn source c where
  reads_item frames q d h := by
    obtain ⟨_, reads, three⟩ := h.exists_reads_item
    exact ⟨here.advances reads three, h.settles_item, h.resume_eq⟩
  ends_item frames := completes_or_error frames _ c
  reads_pass frames q d h := by
    obtain ⟨_, reads, three⟩ := h.exists_reads_step
    exact ⟨here.advances reads three, run_eq_bind _ ▸ h.resume_eq⟩
  ends_pass frames := run_eq_bind (.content frames) ▸ completes_or_error frames _ c
  reads_attribute _ _ _ _ _ _ _ _ d h := by
    obtain ⟨_, reads, five⟩ := five_le_of_step_opening h
    exact here.advances reads five
  reads_step s q d h := by
    obtain ⟨_, reads, one⟩ := (step_consumes s).ok h
    have advances := here.advances reads one
    have := advances.further
    have := advances.stop_le
    exact ⟨advances, by omega⟩

-- Besides, every tree that is read has at most one node for every three bytes of its source.
theorem moves_on_and_ends (source : String) :
    (∀ c : Cursor, c.IsIn source → MovesOn source c) ∧ WellFounded GoesOn ∧
      ∀ t, Tree.parse source = .ok t → t.size ≤ source.utf8ByteSize / 3 :=
  ⟨fun _ => movesOn, wellFounded_goesOn, fun _ => Tree.size_le_of_parse⟩

theorem moves_on_and_ends_element :
    let source := "<é x=\x7by\x7d>\x7bx\x7d</é>"
    (∃ t, Tree.parse source = .ok t ∧ t.size = 3 ∧ t.size ≤ source.utf8ByteSize / 3) ∧
      (Cursor.start source).IsIn source ∧
      ∃ q d, Completes [] (step (.content [])) (.start source) q d ∧
        (Cursor.start source).Advances source 3 d := by
  intro source
  let value : Tree Span := ⟨⟨7, 8⟩, .var "y"⟩
  let t : Tree Span := ⟨⟨0, 18⟩, .element "é" [("x", value)] [⟨⟨11, 12⟩, .var "x"⟩]⟩
  have parsed : Tree.parse source = .ok t := by decide +kernel
  have here : (Cursor.start source).IsIn source := ⟨[], .refl⟩
  have ⟨moves, _, sizes⟩ := moves_on_and_ends source
  refine ⟨⟨t, parsed, rfl, sizes t parsed⟩, here, ?_⟩
  obtain ⟨q, d, completes⟩ | ⟨cause, d, failed⟩ := (moves _ here).ends_pass []
  case inl => exact ⟨q, d, completes, ((moves _ here).reads_pass [] q d completes).1⟩
  case inr =>
    have stopped : template (.start source) = .error cause d := bind_eq_error_iff.mpr (.inl failed)
    rw [Tree.parse, Cursor.read, stopped] at parsed
    cases parsed

end State
end MarkupTemplate
