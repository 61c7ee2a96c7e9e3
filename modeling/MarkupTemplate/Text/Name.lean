import MarkupTemplate.Text.Alphabetic
import MarkupTemplate.Text.Blank

/-!
Names. There are three classes of them, and a name of any class is a non-empty run of letters.
-/

namespace MarkupTemplate

inductive NameClass where
  | identifier
  | tagName
  | attributeName
deriving DecidableEq, Repr

namespace NameClass

def members : NameClass → CodeSet
  | identifier | tagName | attributeName => alphabetic

def accepts (k : NameClass) (c : Char) : Bool :=
  k.members.contains c.toNat

theorem accepts_eq (k : NameClass) : k.accepts = isAlphabetic := by
  cases k <;> rfl

-- The maximal runs of accepted code points in the half-open window `start … stop`.
def runs (k : NameClass) (start stop : Nat) : CodeSet :=
  k.members.clip start stop

theorem separated_runs (k : NameClass) (start stop : Nat) : (k.runs start stop).Separated := by
  cases k <;> exact CodeSet.separated_alphabetic.clip

end NameClass

-- A blank ends a name, and a name ends a run of blanks.
theorem not_isAlphabetic_of_isBlank {c : Char} (h : isBlank c) : isAlphabetic c = false := by
  have disjoint : ∀ r ∈ blank, alphabetic.clip r.first (r.last + 1) = [] := by decide +kernel
  obtain ⟨r, hr, hc⟩ := CodeSet.contains_iff.mp h
  have empty := disjoint r hr
  have := @CodeSet.contains_clip alphabetic r.first (r.last + 1) c.toNat
  rw [empty] at this
  simp only [isAlphabetic]
  grind [CodeSet.contains]

end MarkupTemplate
