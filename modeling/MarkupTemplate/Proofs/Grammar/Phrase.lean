import MarkupTemplate.Proofs.Grammar.Located
import MarkupTemplate.Proofs.Grammar.Scan

/-!
The scans of whole phrases read exactly what the grammar has there: `reference_eq_ok_iff`,
`assignment_eq_ok_iff` and `loopHeader_eq_ok_iff`. A phrase is read as soon as its text stands
there, for nothing that may follow it could have been taken as a part of it.
-/

namespace MarkupTemplate.Scan

variable {c d : Cursor}

theorem reference_eq_ok_iff {t : Tree Span} : reference c = .ok t d ↔
    ∃ n : Name, c.Reads n.text d ∧ ¬Leads isAlphabetic d.rest ∧ t = n.variable c.position where
  mp h := by
    simp only [reference, bind_eq_ok_iff, name_eq_ok_iff, pure_eq_ok_iff] at h
    obtain ⟨_, _, ⟨n, reads, ends, rfl⟩, rfl, rfl⟩ := h
    exact ⟨n, reads, ends, by rw [reads.position, Name.variable]⟩
  mpr := by
    intro ⟨n, reads, ends, ht⟩
    rw [reference, bind_eq_of_ok (name_eq_ok_iff.mpr ⟨n, reads, ends, rfl⟩), pure_eq_ok_iff]
    exact ⟨by rw [ht, reads.position, Name.variable], rfl⟩

theorem reference_of_reads {n : Name} (reads : c.Reads n.text d)
    (ends : ¬Leads isAlphabetic d.rest) : reference c = .ok (n.variable c.position) d :=
  reference_eq_ok_iff.mpr ⟨n, reads, ends, rfl⟩

theorem assignment_eq_ok_iff {r : String × Tree Span} : assignment c = .ok r d ↔
    ∃ a : Assignment, c.Reads a.text d ∧ r = a.entry c.position where
  mp h := by
    simp only [assignment, bind_eq_ok_iff, name_eq_ok_iff, blanks_eq_ok_iff, literal_eq_ok_iff,
      reference_eq_ok_iff, pure_eq_ok_iff] at h
    obtain ⟨_, _, ⟨x, hx, -, rfl⟩, _, _, ⟨b₁, h₁, -⟩, _, _, equals, _, _, ⟨b₂, h₂, -⟩, _, _, opened,
      _, _, ⟨b₃, h₃, -⟩, _, _, ⟨v, hv, -, rfl⟩, _, _, ⟨b₄, h₄, -⟩, _, _, closed, rfl, rfl⟩ := h
    have front := ((hx.trans h₁).trans equals).trans h₂
    have inner := opened.trans h₃
    refine ⟨⟨x, b₁, b₂, b₃, v, b₄⟩, front.trans (((inner.trans hv).trans h₄).trans closed), ?_⟩
    rw [inner.position, front.position]
    rfl
  mpr := by
    rintro ⟨⟨x, b₁, b₂, b₃, v, b₄⟩, reads, rfl⟩
    simp only [Assignment.text, Braced.text, Cursor.Reads.append_iff] at reads
    obtain ⟨_, ⟨_, ⟨_, ⟨_, hx, h₁⟩, equals⟩, h₂⟩, _, ⟨_, ⟨_, ⟨_, opened, h₃⟩, hv⟩, h₄⟩, closed⟩ :=
      reads
    have front := ((hx.trans h₁).trans equals).trans h₂
    have inner := opened.trans h₃
    have x_ends := h₁.blanks_not_isAlphabetic (equals.sign_not_isAlphabetic (by decide))
    have v_ends := h₄.blanks_not_isAlphabetic (closed.sign_not_isAlphabetic (by decide))
    rw [assignment, bind_eq_of_ok (name_of_reads hx x_ends)]
    dsimp only
    rw [bind_eq_of_ok (blanks_of_reads h₁ (equals.sign_not_isBlank (by decide))),
      bind_eq_of_ok (literal_of_reads equals),
      bind_eq_of_ok (blanks_of_reads h₂ (opened.sign_not_isBlank (by decide))),
      bind_eq_of_ok (literal_of_reads opened),
      bind_eq_of_ok (blanks_of_reads h₃ hv.name_not_isBlank),
      bind_eq_of_ok (reference_of_reads hv v_ends),
      bind_eq_of_ok (blanks_of_reads h₄ (closed.sign_not_isBlank (by decide))),
      bind_eq_of_ok (literal_of_reads closed), pure_eq_ok_iff, inner.position, front.position]
    exact ⟨rfl, rfl⟩

-- The header stands right after the word `for`, and no longer name stands there.
theorem loopHeader_eq_ok_iff {r : String × Tree Span} (ends : ¬Leads isAlphabetic c.rest) :
    loopHeader c = .ok r d ↔
      ∃ h : LoopHeader, c.Reads h.text d ∧ r = (h.binder.string, h.collectionAt c.position) where
  mp h := by
    simp only [loopHeader, bind_eq_ok_iff, name_eq_ok_iff, blanks_eq_ok_iff, literal_eq_ok_iff,
      reference_eq_ok_iff, pure_eq_ok_iff] at h
    obtain ⟨_, _, ⟨b₁, h₁, -⟩, _, _, ⟨x, hx, x_ends, rfl⟩, _, _, ⟨b₂, h₂, -⟩, _, _, word,
      _, _, ⟨b₃, h₃, -⟩, _, _, ⟨v, hv, -, rfl⟩, _, _, ⟨b₄, h₄, -⟩, _, _, closed, rfl, rfl⟩ := h
    have gap₁ := h₁.blanks_ne_nil ends hx.name_isAlphabetic
    have gap₂ := h₂.blanks_ne_nil x_ends (word.name_isAlphabetic (n := .in_))
    have front := (((h₁.trans hx).trans h₂).trans word).trans h₃
    refine ⟨⟨⟨b₁, gap₁⟩, x, ⟨b₂, gap₂⟩, b₃, v, b₄⟩, ((front.trans hv).trans h₄).trans closed, ?_⟩
    rw [front.position]
    rfl
  mpr := by
    rintro ⟨⟨g₁, x, g₂, b₃, v, b₄⟩, reads, rfl⟩
    simp only [LoopHeader.text, Cursor.Reads.append_iff] at reads
    obtain ⟨_, ⟨_, ⟨_, ⟨_, ⟨_, ⟨_, ⟨_, h₁, hx⟩, h₂⟩, word⟩, h₃⟩, hv⟩, h₄⟩, closed⟩ := reads
    have front := (((h₁.trans hx).trans h₂).trans word).trans h₃
    have v_ends := h₄.blanks_not_isAlphabetic (closed.sign_not_isAlphabetic (by decide))
    rw [loopHeader, bind_eq_of_ok (blanks_of_reads h₁ hx.name_not_isBlank),
      bind_eq_of_ok (name_of_reads hx h₂.gap_not_isAlphabetic)]
    dsimp only
    rw [bind_eq_of_ok (blanks_of_reads h₂ (word.name_not_isBlank (n := .in_))),
      bind_eq_of_ok (literal_of_reads word),
      bind_eq_of_ok (blanks_of_reads h₃ hv.name_not_isBlank),
      bind_eq_of_ok (reference_of_reads hv v_ends),
      bind_eq_of_ok (blanks_of_reads h₄ (closed.sign_not_isBlank (by decide))),
      bind_eq_of_ok (literal_of_reads closed), pure_eq_ok_iff, front.position]
    exact ⟨rfl, rfl⟩

end MarkupTemplate.Scan
