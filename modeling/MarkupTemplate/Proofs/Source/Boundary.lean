import Mathlib.Order.Bounds.Basic
import MarkupTemplate.Text.Bytes

/-!
Places between two characters of a source, and its lines. `IsFloor source n p` moves `n` down to
such a place, which is where `Bytes.take n` cuts (`isFloor_take`).
-/

namespace MarkupTemplate

open Bytes

-- The last place between two characters, or at an end of the source, no further on than `n`.
def IsFloor (source : String) (n p : Nat) : Prop :=
  IsGreatest {p | (⟨p⟩ : String.Pos.Raw).IsValid source ∧ p ≤ min n source.utf8ByteSize} p

-- What stands between line feeds, of which none is left.
def lines (source : String) : List String :=
  (source.toList.splitOn '\n').map .ofList

variable {source : String} {p n : Nat} {cs ds : List Char}

theorem isValid_iff_exists_length :
    (⟨p⟩ : String.Pos.Raw).IsValid source ↔ ∃ cs ds, source.toList = cs ++ ds ∧ p = length cs := by
  rw [String.Pos.Raw.isValid_iff_exists_append]
  constructor
  · rintro ⟨before, after, split, eq⟩
    refine ⟨before.toList, after.toList, by simp [split], ?_⟩
    rw [length_toList]
    exact congrArg String.Pos.Raw.byteIdx eq
  · rintro ⟨cs, ds, split, rfl⟩
    refine ⟨.ofList cs, .ofList ds, ?_, ?_⟩
    · rw [← String.ofList_append, ← split, String.ofList_toList]
    · rw [String.rawEndPos, utf8ByteSize_ofList]

theorem length_take_le_size (source : String) (n : Nat) :
    length (take n source.toList) ≤ source.utf8ByteSize := by
  rw [← length_toList]
  conv => rhs; rw [← take_append_drop n source.toList, length_append]
  exact Nat.le_add_right _ _

theorem isFloor_take (source : String) (n : Nat) :
    IsFloor source n (length (take n source.toList)) := by
  constructor
  · refine ⟨isValid_iff_exists_length.mpr ⟨_, _, (take_append_drop n _).symm, rfl⟩, ?_⟩
    exact Nat.le_min.mpr ⟨length_take_le n _, length_take_le_size source n⟩
  · rintro p ⟨valid, le⟩
    obtain ⟨cs, ds, split, rfl⟩ := isValid_iff_exists_length.mp valid
    rw [split, take_append_of_le (Nat.le_min.mp le).1, length_append]
    exact Nat.le_add_right _ _

theorem length_splitOn (cs : List Char) : (cs.splitOn '\n').length = cs.count '\n' + 1 := by
  induction cs with
  | nil => rfl
  | cons c cs ih =>
    rw [List.splitOn] at ih
    rw [List.splitOn, List.splitOnP_cons_eq_if_modifyHead, List.count_cons]
    split <;> simp [ih]

theorem splitOn_append_cons (cs ds : List Char) :
    (cs ++ '\n' :: ds).splitOn '\n' = cs.splitOn '\n' ++ ds.splitOn '\n' :=
  List.splitOnP_append_cons cs ds (by decide)

theorem exists_splitOn_append {line below : List Char} (one_line : '\n' ∉ line)
    (ended : below = [] ∨ ∃ ds, below = '\n' :: ds) :
    ∃ rest, (line ++ below).splitOn '\n' = line :: rest := by
  obtain rfl | ⟨ds, rfl⟩ := ended
  case inl => exact ⟨[], by rw [List.append_nil, List.splitOn_eq_singleton one_line]⟩
  case inr =>
    exact ⟨ds.splitOn '\n', by rw [splitOn_append_cons, List.splitOn_eq_singleton one_line]; rfl⟩

-- As many line feeds as there are above a line, as many lines are there.
theorem getElem?_splitOn {above line below : List Char} (one_line : '\n' ∉ line)
    (started : above = [] ∨ ∃ cs, above = cs ++ ['\n'])
    (ended : below = [] ∨ ∃ ds, below = '\n' :: ds) :
    ((above ++ (line ++ below)).splitOn '\n')[above.count '\n']? = some line := by
  have ⟨rest, first⟩ := exists_splitOn_append one_line ended
  obtain rfl | ⟨cs, rfl⟩ := started
  case inl => simp [first]
  case inr =>
    rw [List.append_assoc, List.singleton_append, splitOn_append_cons, first]
    simp [← length_splitOn]

end MarkupTemplate
