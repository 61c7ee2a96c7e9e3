import MarkupTemplate.Proofs.Failure.Basic
import MarkupTemplate.Proofs.Grammar.Phrase

/-!
Where a phrase breaks off. `Stuck c text cause d` says that reading stopped at `d` although the
phrase `text` could have stood at `c`: up to `d` it does, and from there on it is what the cause
names.
-/

namespace MarkupTemplate

open SyntaxError

variable {c d m : Cursor} {cs ds text : List Char} {cause : Cause}

theorem SyntaxError.AfterBlanks.append {p : List Char → Prop} (h : AfterBlanks p cs)
    (closed : ∀ {es}, p es → p (es ++ ds)) : AfterBlanks p (cs ++ ds) := by
  obtain ⟨b, es, rfl, hp⟩ := h
  exact ⟨b, es ++ ds, by simp, closed hp⟩

theorem SyntaxError.Cause.Supplies.append (h : cause.Supplies cs) : cause.Supplies (cs ++ ds) := by
  have prefix_append {s es : List Char} (h : s <+: es) : s <+: es ++ ds :=
    h.trans (List.prefix_append _ _)
  match cause with
  | .missing _               => exact AfterBlanks.append h prefix_append
  | .unclosed _              => exact AfterBlanks.append h prefix_append
  | .unnamed .tagName        => exact Leads.append h
  | .unnamed .identifier     => exact AfterBlanks.append h Leads.append
  | .unnamed .attributeName  => exact AfterBlanks.append h Leads.append

def Stuck (c : Cursor) (text : List Char) (cause : Cause) (d : Cursor) : Prop :=
  ∃ front w, text = front ++ w ∧ c.Reads front d ∧ cause.Lacks d.rest ∧ cause.Supplies w

namespace Stuck

theorem append (h : Stuck c cs cause d) : Stuck c (cs ++ ds) cause d := by
  obtain ⟨front, w, rfl, reads, lacks, supplies⟩ := h
  exact ⟨front, w ++ ds, by simp, reads, lacks, supplies.append⟩

theorem after (reads : c.Reads cs m) (h : Stuck m ds cause d) : Stuck c (cs ++ ds) cause d := by
  obtain ⟨front, w, rfl, reads', lacks, supplies⟩ := h
  exact ⟨cs ++ front, w, by simp, reads.trans reads', lacks, supplies⟩

-- Blanks may come before what is missing.
theorem literal {s : String} (h : Scan.literal s c = .error cause d)
    (mem : s ∈ ["=", "\x7b", "\x7d", "in"]) (b : Blanks) :
    Stuck c (b.text ++ s.toList) cause d := by
  obtain ⟨rfl, rfl, other⟩ := Scan.literal_eq_error_iff.mp h
  have ne : s ≠ "end" := by
    rintro rfl
    revert mem
    decide
  refine ⟨[], _, rfl, .refl, .inl ⟨mem, other⟩, b, s.toList, rfl, ?_⟩
  simp [ne]

theorem name {k : NameClass} (h : Scan.name k c = .error cause d) (ne : k ≠ .tagName)
    (other : k = .attributeName → ¬['>'] <+: c.rest) (b : Blanks) (n : Name) :
    Stuck c (b.text ++ n.text) cause d := by
  obtain ⟨rfl, rfl, letters⟩ := Scan.name_eq_error_iff.mp h
  have supplies : AfterBlanks (Leads isAlphabetic) (b.text ++ n.text) :=
    ⟨b, n.text, rfl, by simpa using n.leads_isAlphabetic []⟩
  refine ⟨[], _, rfl, .refl, ⟨letters, other⟩, ?_⟩
  match k with
  | .identifier    => exact supplies
  | .attributeName => exact supplies

theorem identifier (h : Scan.name .identifier c = .error cause d) (b : Blanks) (n : Name) :
    Stuck c (b.text ++ n.text) cause d :=
  name h nofun nofun b n

theorem tagName (h : Scan.name .tagName c = .error cause d) (n : Name) :
    Stuck c n.text cause d := by
  obtain ⟨rfl, rfl, letters⟩ := Scan.name_eq_error_iff.mp h
  have supplies : Leads isAlphabetic n.text := by simpa using n.leads_isAlphabetic []
  exact ⟨[], _, rfl, .refl, ⟨letters, nofun⟩, supplies⟩

end Stuck

namespace Scan

theorem reference_eq_error_iff : reference c = .error cause d ↔
    name .identifier c = .error cause d := by
  rw [reference, bind_eq_error_iff]
  apply or_iff_left
  rintro ⟨_, _, _, h⟩
  exact pure_ne_error h

-- Any name will do where one is missing.
theorem assignment_stuck (h : assignment c = .error cause d) (letter : Leads isAlphabetic c.rest) :
    ∃ a : Assignment, Stuck c a.text cause d := by
  simp only [assignment, bind_eq_error_iff, blanks_ne_error, false_or, name_eq_ok_iff,
    blanks_eq_ok_iff, literal_eq_ok_iff, reference_eq_error_iff, reference_eq_ok_iff,
    pure_ne_error, and_false, exists_false, or_false] at h
  obtain h | ⟨_, _, ⟨x, hx, -⟩, _, _, ⟨b₁, h₁, -⟩, h⟩ := h
  case inl =>
    obtain ⟨-, -, other⟩ := name_eq_error_iff.mp h
    exact absurd letter other
  obtain h | ⟨_, _, equals, _, _, ⟨b₂, h₂, -⟩, h⟩ := h
  case inl =>
    refine ⟨⟨x, b₁, .none, ⟨.none, .in_, .none⟩⟩, ?_⟩
    have stuck := (Stuck.literal h (by decide) .none).after (hx.trans h₁)
    simpa [Assignment.text] using stuck.append
  have front := ((hx.trans h₁).trans equals).trans h₂
  obtain h | ⟨_, _, opened, _, _, ⟨b₃, h₃, -⟩, h⟩ := h
  case inl =>
    refine ⟨⟨x, b₁, b₂, ⟨.none, .in_, .none⟩⟩, ?_⟩
    have stuck := (Stuck.literal h (by decide) .none).after front
    simpa [Assignment.text, Braced.text] using stuck.append
  have inner := (front.trans opened).trans h₃
  obtain h | ⟨_, _, ⟨v, hv, -⟩, _, _, ⟨b₄, h₄, -⟩, h⟩ := h
  case inl =>
    refine ⟨⟨x, b₁, b₂, ⟨b₃, .in_, .none⟩⟩, ?_⟩
    have stuck := (Stuck.identifier h .none .in_).after inner
    simpa [Assignment.text, Braced.text] using stuck.append
  refine ⟨⟨x, b₁, b₂, ⟨b₃, v, b₄⟩⟩, ?_⟩
  have stuck := (Stuck.literal h (by decide) .none).after ((inner.trans hv).trans h₄)
  simpa [Assignment.text, Braced.text] using stuck

-- The header comes right after the word `for`, which a blank must end where no binder follows.
theorem loopHeader_stuck (h : loopHeader c = .error cause d) (ends : ¬Leads isAlphabetic c.rest) :
    ∃ header : LoopHeader, Stuck c header.text cause d := by
  simp only [loopHeader, bind_eq_error_iff, blanks_ne_error, false_or, name_eq_ok_iff,
    blanks_eq_ok_iff, literal_eq_ok_iff, reference_eq_error_iff, reference_eq_ok_iff,
    pure_ne_error, and_false, exists_false, or_false] at h
  obtain ⟨_, _, ⟨b₁, h₁, -⟩, h⟩ := h
  obtain h | ⟨_, _, ⟨x, hx, x_ends, -⟩, _, _, ⟨b₂, h₂, -⟩, h⟩ := h
  case inl =>
    refine ⟨⟨.after b₁, .in_, .space, .none, .in_, .none⟩, ?_⟩
    have stuck := (Stuck.identifier h Gap.space.toBlanks .in_).after h₁
    simpa [LoopHeader.text] using stuck.append
  have gap₁ := h₁.blanks_ne_nil ends hx.name_isAlphabetic
  obtain h | ⟨_, _, word, _, _, ⟨b₃, h₃, -⟩, h⟩ := h
  case inl =>
    refine ⟨⟨⟨b₁, gap₁⟩, x, .after b₂, .none, .in_, .none⟩, ?_⟩
    have stuck := (Stuck.literal h (by decide) Gap.space.toBlanks).after ((h₁.trans hx).trans h₂)
    simpa [LoopHeader.text] using stuck.append
  have gap₂ := h₂.blanks_ne_nil x_ends (word.name_isAlphabetic (n := .in_))
  have front := (((h₁.trans hx).trans h₂).trans word).trans h₃
  obtain h | ⟨_, _, ⟨v, hv, -⟩, _, _, ⟨b₄, h₄, -⟩, h⟩ := h
  case inl =>
    refine ⟨⟨⟨b₁, gap₁⟩, x, ⟨b₂, gap₂⟩, b₃, .in_, .none⟩, ?_⟩
    have stuck := (Stuck.identifier h .none .in_).after front
    simpa [LoopHeader.text] using stuck.append
  refine ⟨⟨⟨b₁, gap₁⟩, x, ⟨b₂, gap₂⟩, b₃, v, b₄⟩, ?_⟩
  have stuck := (Stuck.literal h (by decide) .none).after ((front.trans hv).trans h₄)
  simpa [LoopHeader.text] using stuck

end Scan
end MarkupTemplate
