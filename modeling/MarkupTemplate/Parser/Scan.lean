import MarkupTemplate.Parser.Cursor
import MarkupTemplate.Parser.Error

/-!
Scans: the elementary steps of reading, each of which moves a cursor and gives a result, or
stops at the cursor with a cause. `p.Consumes n` says that a scan only ever moves forward over
the source, and by at least `n` characters when it succeeds.
-/

namespace MarkupTemplate

abbrev Scan (α : Type) :=
  EStateM SyntaxError.Cause Cursor α

namespace Scan

variable {α β : Type}

def position : Scan Nat :=
  fun c => .ok c.position c

def atEnd : Scan Bool :=
  fun c => .ok c.rest.isEmpty c

-- Looks ahead without moving.
def sees (literal : String) : Scan Bool :=
  fun c => .ok (c.past? literal).isSome c

def blanks : Scan Unit :=
  fun c => .ok () (c.skip isBlank)

def literal (s : String) : Scan Unit := fun c =>
  match c.past? s with
  | some d => .ok () d
  | none   => .error (.missing s) c

-- Takes as many letters as there are.
def name (k : NameClass) : Scan (String × Span) := fun c =>
  let read := c.rest.takeWhile k.accepts
  let d := c.skip k.accepts
  if read = [] then .error (.unnamed k) c else .ok (.ofList read, ⟨c.position, d.position⟩) d

-- A scan that fails has moved over part of the source too, up to where it failed.
structure Consumes (p : Scan α) (n : Nat) : Prop where
  ok    : ∀ {c a d}, p c = .ok a d → ∃ read, c.Reads read d ∧ n ≤ read.length
  error : ∀ {c e d}, p c = .error e d → ∃ read, c.Reads read d

namespace Consumes

variable {p : Scan α} {f : α → Scan β} {m n : Nat}

theorem weaken (le : m ≤ n) (h : p.Consumes n) : p.Consumes m where
  ok eq :=
    have ⟨read, reads, len⟩ := h.ok eq
    ⟨read, reads, Nat.le_trans le len⟩
  error := h.error

theorem pure (a : α) : Consumes (Pure.pure a) 0 where
  ok eq := by cases eq; exact ⟨[], .refl, Nat.zero_le _⟩
  error eq := by cases eq

theorem throw (e : SyntaxError.Cause) : Consumes (MonadExcept.throw e : Scan α) n where
  ok eq := by cases eq
  error eq := by cases eq; exact ⟨[], .refl⟩

theorem bind (hp : p.Consumes m) (hf : ∀ a, (f a).Consumes n) : Consumes (p >>= f) (m + n) where
  ok := by
    intro c b e eq
    simp only [Bind.bind, EStateM.bind] at eq
    split at eq
    case h_1 h =>
      have ⟨cs, reads, len⟩ := hp.ok h
      have ⟨ds, reads', len'⟩ := (hf _).ok eq
      exact ⟨cs ++ ds, reads.trans reads', by simp; omega⟩
    case h_2 => cases eq
  error := by
    intro c b e eq
    simp only [Bind.bind, EStateM.bind] at eq
    split at eq
    case h_1 h =>
      have ⟨cs, reads, _⟩ := hp.ok h
      have ⟨ds, reads'⟩ := (hf _).error eq
      exact ⟨cs ++ ds, reads.trans reads'⟩
    case h_2 h => cases eq; exact hp.error h

theorem after (hp : p.Consumes 0) (hf : ∀ a, (f a).Consumes n) : Consumes (p >>= f) n :=
  Nat.zero_add n ▸ hp.bind hf

theorem ite {q : Scan α} {P : Prop} [Decidable P] (hp : p.Consumes n) (hq : q.Consumes n) :
    Consumes (if P then p else q) n := by
  split
  · exact hp
  · exact hq

end Consumes

theorem position_consumes : position.Consumes 0 where
  ok eq := by cases eq; exact ⟨[], .refl, Nat.zero_le _⟩
  error eq := by cases eq

theorem atEnd_consumes : atEnd.Consumes 0 where
  ok eq := by cases eq; exact ⟨[], .refl, Nat.zero_le _⟩
  error eq := by cases eq

theorem sees_consumes (s : String) : (sees s).Consumes 0 where
  ok eq := by cases eq; exact ⟨[], .refl, Nat.zero_le _⟩
  error eq := by cases eq

theorem blanks_consumes : blanks.Consumes 0 where
  ok eq := by cases eq; exact ⟨_, Cursor.reads_skip _ _, Nat.zero_le _⟩
  error eq := by cases eq

theorem literal_consumes (s : String) : (literal s).Consumes s.length where
  ok := by
    intro c a d eq
    simp only [literal] at eq
    split at eq
    case h_1 h =>
      cases eq
      exact ⟨s.toList, Cursor.past?_eq_some_iff.mp h, Nat.le_of_eq String.length_toList.symm⟩
    case h_2 => cases eq
  error := by
    intro c a d eq
    simp only [literal] at eq
    split at eq
    case h_1 => cases eq
    case h_2 => cases eq; exact ⟨[], .refl⟩

theorem name_consumes (k : NameClass) : (name k).Consumes 1 where
  ok := by
    intro c a d eq
    simp only [name] at eq
    split at eq
    case isTrue => cases eq
    case isFalse h => cases eq; exact ⟨_, Cursor.reads_skip _ _, List.length_pos_iff.mpr h⟩
  error := by
    intro c a d eq
    simp only [name] at eq
    split at eq
    case isTrue => cases eq; exact ⟨[], .refl⟩
    case isFalse => cases eq

end Scan
end MarkupTemplate
