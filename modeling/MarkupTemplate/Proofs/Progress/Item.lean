import Mathlib.Data.List.Infix
import MarkupTemplate.Proofs.Grammar.Completeness

/-!
Whole items. Reading an item opens constructs on top of those that are open already, and it is
complete at the first step that leaves none of its own open. Whatever the source, each item either
comes to its end or runs into an error (`Scan.completes_or_error`).
-/

namespace MarkupTemplate

open State

variable {c d e m : Cursor} {frames outer : List Frame} {p q r : Progress} {s : State}
  {t : Tree Span}

-- A construct is open that was begun behind `frames`.
def State.Inside (frames : List Frame) : State → Prop
  | opening _ _ _ outer  => frames <:+ outer
  | content (_ :: outer) => frames <:+ outer
  | content []           => False

namespace Progress

def Inside (frames : List Frame) : Progress → Prop
  | reading s  => s.Inside frames
  | finished _ => False

-- On from inside an item up to the step that completes it.
inductive ReadsOn (frames : List Frame) : Progress → Cursor → Progress → Cursor → Prop where
  | complete {q : Progress} {c : Cursor} : ¬q.Inside frames → ReadsOn frames q c q c
  | step {s : State} {c m d : Cursor} {r q : Progress} :
    s.Inside frames → State.step s c = .ok r m → ReadsOn frames r m q d →
      ReadsOn frames (.reading s) c q d

-- What an item is to the constructs around it: a node of the innermost one, or the end of that one.
def Settles (frames : List Frame) (q : Progress) : Prop :=
  (∃ t, q = State.complete t frames) ∨
    ∃ f outer stop, frames = f :: outer ∧ f.IsLoop ∧ q = State.complete (f.close stop) outer

end Progress

-- An item from the scan that begins it to the step that completes it.
def Scan.Completes (frames : List Frame) (p : Scan Progress) (c : Cursor) (q : Progress)
    (d : Cursor) : Prop :=
  ∃ r m, p c = .ok r m ∧ r.ReadsOn frames m q d

namespace Progress

theorem Inside.weaken (h : q.Inside outer) (below : frames <:+ outer) : q.Inside frames := by
  match q with
  | reading (.opening ..)        => exact below.trans h
  | reading (.content (_ :: _))  => exact below.trans h
  | reading (.content [])        => exact h.elim
  | finished _                   => exact h.elim

-- A construct that ends inside an item is the item itself, or something else is open around it.
theorem inside_or_complete (below : frames <:+ outer) (t : Tree Span) :
    (State.complete t outer).Inside frames ∨ State.complete t outer = State.complete t frames := by
  cases outer with
  | nil          => exact .inr (by rw [List.suffix_nil.mp below])
  | cons f outer =>
    obtain rfl | below := List.suffix_cons_iff.mp below
    case inl => exact .inr rfl
    case inr => exact .inl below

theorem settles_completeVariable (x : String) (span : Span) (frames : List Frame) :
    (completeVariable x span frames).Settles frames := by
  match frames with
  | [] | ⟨.element .., _⟩ :: _ => exact .inl ⟨_, rfl⟩
  | ⟨.loop .., _⟩ :: _ =>
    rw [completeVariable]
    split
    case isTrue  => exact .inr ⟨_, _, _, rfl, ⟨_, _, _, rfl⟩, rfl⟩
    case isFalse => exact .inl ⟨_, rfl⟩

theorem inside_or_settles_item (h : item frames c = .ok q d) :
    q.Inside frames ∨ q.Settles frames := by
  obtain h | h := item_eq_ok_iff.mp h
  case inl =>
    obtain ⟨_, _, _, rfl⟩ := startTag_eq_ok_iff.mp h
    exact .inl (List.suffix_refl frames)
  case inr =>
    obtain ⟨_, _, _, rfl⟩ | ⟨_, _, _, rfl⟩ := braces_eq_ok_iff.mp h
    case inl => exact .inr (settles_completeVariable ..)
    case inr => exact .inl (List.suffix_refl frames)

-- The constructs below an item stay as they are until it is complete.
theorem inside_or_complete_of_item {f : Frame} (below : frames <:+ outer)
    (h : item (f :: outer) c = .ok q d) :
    q.Inside frames ∨ ∃ t, q = State.complete t frames := by
  obtain inside | ⟨t, rfl⟩ | ⟨_, _, stop, ⟨⟩, _, rfl⟩ := inside_or_settles_item h
  case inl     => exact .inl (inside.weaken (below.trans (List.suffix_cons f outer)))
  case inr.inl => exact .inl below
  case inr.inr => exact (inside_or_complete below _).imp id fun eq => ⟨_, eq⟩

theorem inside_or_complete_of_step (inside : s.Inside frames) (h : step s c = .ok q d) :
    q.Inside frames ∨ ∃ t, q = State.complete t frames := by
  match s with
  | .opening .. =>
    obtain ⟨_, _, rfl⟩ | ⟨_, _, _, rfl⟩ := step_opening_eq_ok_iff.mp h
    all_goals exact .inl inside
  | .content [] => exact inside.elim
  | .content (⟨.element .., _⟩ :: _) =>
    obtain ⟨_, _, _, h⟩ | ⟨_, _, rfl⟩ := step_element_eq_ok_iff.mp h
    case inl => exact inside_or_complete_of_item inside h
    case inr => exact (inside_or_complete inside _).imp id fun eq => ⟨_, eq⟩
  | .content (⟨.loop .., _⟩ :: _) =>
    obtain ⟨_, _, _, h⟩ := step_loop_eq_ok_iff.mp h
    exact inside_or_complete_of_item inside h

namespace ReadsOn

theorem settles (h : p.ReadsOn frames c q d) (begun : p.Inside frames ∨ p.Settles frames) :
    q.Settles frames := by
  induction h with
  | complete other => exact begun.resolve_left other
  | step inside next _ ih =>
    exact ih ((inside_or_complete_of_step inside next).imp id .inl)

theorem exists_reads (h : p.ReadsOn frames c q d) : ∃ read, c.Reads read d := by
  induction h with
  | complete => exact ⟨[], .refl⟩
  | step _ next _ ih =>
    obtain ⟨_, first, _⟩ := (step_consumes _).ok next
    obtain ⟨_, rest⟩ := ih
    exact ⟨_, first.trans rest⟩

theorem resume_eq (h : p.ReadsOn frames c q d) : p.resume c = q.resume d := by
  induction h with
  | complete => rfl
  | step _ next _ ih => exact (run_of_step next).trans ih

end ReadsOn

-- The run is cut where the item is complete. Every run comes there unless it fails.
theorem readsOn_or_run_error (frames : List Frame) (s : State) (c : Cursor) :
    (∃ q d, (reading s).ReadsOn frames c q d) ∨ ∃ cause d, run s c = .error cause d := by
  by_cases inside : s.Inside frames
  case neg => exact .inl ⟨_, c, .complete inside⟩
  fun_induction run s c with
  | case1 s c cause d h => exact .inr ⟨cause, d, rfl⟩
  | case2 s c t d h => exact .inl ⟨_, d, .step inside h (.complete id)⟩
  | case3 s c s' d h _ ih =>
    by_cases inside' : s'.Inside frames
    case neg => exact .inl ⟨_, d, .step inside h (.complete inside')⟩
    case pos =>
      obtain ⟨q, e, rest⟩ | failed := ih inside'
      case inl => exact .inl ⟨q, e, .step inside h rest⟩
      case inr => exact .inr failed

theorem readsOn_or_error (frames : List Frame) (p : Progress) (c : Cursor) :
    (∃ q d, p.ReadsOn frames c q d) ∨ ∃ cause d, p.resume c = .error cause d := by
  match p with
  | reading s  => exact readsOn_or_run_error frames s c
  | finished _ => exact .inl ⟨_, c, .complete id⟩

end Progress

theorem State.run_eq_bind (s : State) : run s = step s >>= Progress.resume := by
  funext c
  cases h : step s c with
  | ok q d        => rw [run_of_step h, Scan.bind_eq_of_ok h]
  | error cause d => rw [run_of_step_error h, Scan.bind_eq_error_iff.mpr (.inl h)]

namespace Scan

variable {p : Scan Progress}

theorem Completes.resume_eq (h : Completes frames p c q d) :
    (p >>= Progress.resume) c = q.resume d := by
  have ⟨_, _, begun, rest⟩ := h
  rw [bind_eq_of_ok begun, rest.resume_eq]

theorem completes_or_error (frames : List Frame) (p : Scan Progress) (c : Cursor) :
    (∃ q d, Completes frames p c q d) ∨ ∃ cause d, (p >>= Progress.resume) c = .error cause d := by
  cases h : p c with
  | error cause d => exact .inr ⟨cause, d, bind_eq_error_iff.mpr (.inl h)⟩
  | ok r m =>
    obtain ⟨q, d, rest⟩ | failed := r.readsOn_or_error frames m
    case inl => exact .inl ⟨q, d, r, m, h, rest⟩
    case inr => exact .inr (bind_eq_of_ok h ▸ failed)

theorem Completes.settles_item (h : Completes frames (item frames) c q d) : q.Settles frames := by
  have ⟨_, _, begun, rest⟩ := h
  exact rest.settles (Progress.inside_or_settles_item begun)

-- A tag is complete only after a step more, and braces have two signs around a name.
theorem Completes.exists_reads_item (h : Completes frames (item frames) c q d) :
    ∃ read, c.Reads read d ∧ 3 ≤ read.length := by
  obtain ⟨r, m, begun, rest⟩ := h
  obtain h | h := item_eq_ok_iff.mp begun
  case inl =>
    obtain ⟨_, _, _, rfl⟩ := startTag_eq_ok_iff.mp h
    have ⟨first, reads, two⟩ := (startTag_consumes frames).ok h
    cases rest with
    | complete other => exact absurd (List.suffix_refl frames) other
    | step _ next rest =>
      have ⟨second, reads', one⟩ := (step_consumes _).ok next
      have ⟨last, reads''⟩ := rest.exists_reads
      exact ⟨_, reads.trans (reads'.trans reads''), by simp only [List.length_append]; omega⟩
  case inr =>
    have ⟨first, reads, three⟩ := (braces_consumes frames).ok h
    have ⟨last, reads'⟩ := rest.exists_reads
    exact ⟨_, reads.trans reads', by rw [List.length_append]; omega⟩

-- A pass through a body reads an item, or the closing tag that ends the body.
theorem Completes.exists_reads_step (h : Completes frames (step (.content frames)) c q d) :
    ∃ read, c.Reads read d ∧ 3 ≤ read.length := by
  obtain ⟨r, m, begun, rest⟩ := h
  have of_item {b : Blanks} {m' : Cursor} (blanks : c.Reads b.text m')
      (h : item frames m' = .ok r m) : ∃ read, c.Reads read d ∧ 3 ≤ read.length := by
    have ⟨read, reads, three⟩ := exists_reads_item ⟨r, m, h, rest⟩
    exact ⟨_, blanks.trans reads, by rw [List.length_append]; omega⟩
  match frames with
  | [] =>
    obtain ⟨_, _, blanks, h⟩ := step_root_eq_ok_iff.mp begun
    exact of_item blanks h
  | ⟨.element .., _⟩ :: _ =>
    obtain ⟨_, _, blanks, h⟩ | ⟨_, closing, _⟩ := step_element_eq_ok_iff.mp begun
    case inl => exact of_item blanks h
    case inr =>
      have ⟨last, reads⟩ := rest.exists_reads
      exact ⟨_, closing.trans reads, by simp; omega⟩
  | ⟨.loop .., _⟩ :: _ =>
    obtain ⟨_, _, blanks, h⟩ := step_loop_eq_ok_iff.mp begun
    exact of_item blanks h

end Scan
end MarkupTemplate
