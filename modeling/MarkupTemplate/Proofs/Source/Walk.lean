import Mathlib.Algebra.Ring.Nat
import Mathlib.Data.Prod.Lex
import MarkupTemplate.Proofs.Source.Underlined

/-!
Locations and positions of a source are two names for the same places. `Location.Reaches` walks to a
location line by line, and ends at the position that has this location and at no other
(`Location.reaches_iff`). Further on in the source means further down, or further right on the same
line.
-/

namespace MarkupTemplate

open Bytes

-- Where a line starts that has `i` lines above it, each of which ends with a line feed.
def startOfLine (source : String) (i : Nat) : Nat :=
  (((lines source).take i).map fun line => line.utf8ByteSize + 1).sum

variable {source : String} {p q m n i : Nat} {cs above line below : List Char}

theorem sum_splitOn (cs : List Char) :
    ((cs.splitOn '\n').map fun line => length line + 1).sum = length cs + 1 := by
  induction cs with
  | nil => rfl
  | cons c cs ih =>
    have ⟨line, rest, eq⟩ := List.exists_cons_of_ne_nil (List.splitOn_ne_nil '\n' cs)
    rw [eq, List.map_cons, List.sum_cons] at ih
    rw [List.splitOn] at eq
    rw [List.splitOn, List.splitOnP_cons_eq_if_modifyHead, eq]
    split
    case isTrue feed =>
      have size : c.utf8Size = 1 := by rw [eq_of_beq feed]; rfl
      simp only [List.map_cons, List.sum_cons, length_nil, length_cons]
      omega
    case isFalse =>
      simp only [List.modifyHead_cons, List.map_cons, List.sum_cons, length_cons]
      omega

theorem startOfLine_eq (text : source.toList = above ++ below)
    (started : above = [] ∨ ∃ cs, above = cs ++ ['\n']) :
    startOfLine source (above.count '\n') = length above := by
  obtain rfl | ⟨cs, rfl⟩ := started
  case inl => simp [startOfLine]
  case inr =>
    have number : (cs ++ ['\n']).count '\n' = (cs.splitOn '\n').length := by
      simp [length_splitOn]
    have feed : '\n'.utf8Size = 1 := rfl
    have sum := sum_splitOn cs
    rw [startOfLine, lines, text, List.append_assoc, List.singleton_append, splitOn_append_cons,
      List.map_append, number, List.take_left' (List.length_map _), List.map_map]
    simpa [Function.comp_def, utf8ByteSize_ofList, feed] using sum

-- A text has one line more than line feeds, or the line above its first line feed comes first.
theorem splitOn_cases (cs : List Char) :
    ('\n' ∉ cs ∧ cs.splitOn '\n' = [cs]) ∨
      ∃ line ds, '\n' ∉ line ∧ cs = line ++ '\n' :: ds ∧
        cs.splitOn '\n' = line :: ds.splitOn '\n' := by
  have ⟨line, rest, split, same, ended⟩ := Leads.exists_append Snippet.sameLine cs
  have one_line := Excerpt.forall_sameLine_iff.mp same
  obtain rfl | ⟨ds, rfl⟩ := Excerpt.not_leads_sameLine_iff.mp ended
  case inl =>
    rw [List.append_nil] at split
    exact .inl (split ▸ ⟨one_line, List.splitOn_eq_singleton one_line⟩)
  case inr =>
    refine .inr ⟨line, ds, one_line, split, ?_⟩
    rw [split, splitOn_append_cons, List.splitOn_eq_singleton one_line]
    rfl

theorem exists_above_getElem? (h : (cs.splitOn '\n')[i]? = some line) :
    ∃ above below, cs = above ++ (line ++ below) ∧ above.count '\n' = i ∧ '\n' ∉ line ∧
      (above = [] ∨ ∃ ds, above = ds ++ ['\n']) ∧ (below = [] ∨ ∃ ds, below = '\n' :: ds) := by
  induction i generalizing cs with
  | zero =>
    obtain ⟨one_line, eq⟩ | ⟨first, ds, one_line, split, eq⟩ := splitOn_cases cs
    all_goals rw [eq] at h
    case inl =>
      cases h
      exact ⟨[], [], by simp, rfl, one_line, .inl rfl, .inl rfl⟩
    case inr =>
      cases h
      exact ⟨[], '\n' :: ds, split, rfl, one_line, .inl rfl, .inr ⟨ds, rfl⟩⟩
  | succ i ih =>
    obtain ⟨_, eq⟩ | ⟨first, ds, first_line, split, eq⟩ := splitOn_cases cs
    all_goals rw [eq] at h
    case inl => cases h
    case inr =>
      obtain ⟨above, below, rfl, count, one_line, started, ended⟩ := ih h
      refine ⟨first ++ '\n' :: above, below, by simp [split], ?count, one_line, ?started, ended⟩
      case count => simp [List.count_eq_zero.mpr first_line, count]
      case started =>
        obtain rfl | ⟨es, rfl⟩ := started
        case inl => exact .inr ⟨first, rfl⟩
        case inr => exact .inr ⟨first ++ '\n' :: es, by simp⟩

namespace Location

-- Past the lines above, and then past the characters to the left.
def Reaches (source : String) (l : Location) (p : Nat) : Prop :=
  ∃ i k line, l = ⟨i + 1, k + 1⟩ ∧ (lines source)[i]? = some line ∧ k ≤ line.length ∧
    p = startOfLine source i + length (line.toList.take k)

-- The places between two characters of a source, and both its ends.
def places (source : String) : Set Nat :=
  {p | (⟨p⟩ : String.Pos.Raw).IsValid source}

-- Locations in the order in which they are passed.
def key (l : Location) : Nat ×ₗ Nat :=
  toLex (l.line, l.column)

theorem key_lt_after (l : Location) (c : Char) : l.key < (l.after c).key := by
  rw [key, key, Prod.Lex.toLex_lt_toLex, after]
  split
  case isTrue  => exact .inl (Nat.lt_succ_self _)
  case isFalse => exact .inr ⟨rfl, Nat.lt_succ_self _⟩

theorem key_le_foldl (cs : List Char) (l : Location) : l.key ≤ (cs.foldl after l).key := by
  induction cs generalizing l with
  | nil => exact le_refl _
  | cons c cs ih => exact le_trans (key_lt_after l c).le (ih _)

theorem key_lt_foldl (ne : cs ≠ []) (l : Location) : l.key < (cs.foldl after l).key := by
  have ⟨c, cs, eq⟩ := List.exists_cons_of_ne_nil ne
  rw [eq]
  exact lt_of_lt_of_le (key_lt_after l c) (key_le_foldl cs _)

theorem isFloor_of_isValid (valid : (⟨p⟩ : String.Pos.Raw).IsValid source) :
    IsFloor source p p := by
  obtain ⟨cs, ds, split, rfl⟩ := isValid_iff_exists_length.mp valid
  have floor := isFloor_take source (length cs)
  rwa [split, take_length_append] at floor

theorem of_floor (floor : IsFloor source n p) : of source n = of source p := by
  rw [floor.unique (isFloor_take source n), of, of, take_length_take]

-- What lies between two positions is passed on the way from one to the other.
theorem exists_foldl_of_le (source : String) (le : m ≤ n) :
    ∃ cs, of source n = cs.foldl after (of source m) ∧
      length (take n source.toList) = length (take m source.toList) + length cs := by
  have split := take_append_of_le (Nat.le_trans (length_take_le m source.toList) le)
    (drop m source.toList)
  rw [take_append_drop] at split
  exact ⟨_, by rw [of, of, split, List.foldl_append], by rw [split, length_append]⟩

theorem monotone_key : Monotone fun n => (of source n).key := by
  intro m n le
  have ⟨cs, eq, _⟩ := exists_foldl_of_le source le
  simpa only [eq] using key_le_foldl cs _

theorem strictMonoOn_key :
    StrictMonoOn (fun p => (of source p).key) (places source) := by
  intro p hp q hq lt
  have ⟨cs, eq, sizes⟩ := exists_foldl_of_le source lt.le
  rw [← (isFloor_of_isValid hp).unique (isFloor_take source p),
    ← (isFloor_of_isValid hq).unique (isFloor_take source q)] at sizes
  have ne : cs ≠ [] := by
    rintro rfl
    rw [length_nil] at sizes
    omega
  simpa only [eq] using key_lt_foldl ne _

theorem isFloor_of_standsAt {c : Char} (h : StandsAt source p [c]) (le : p ≤ n)
    (lt : n < p + c.utf8Size) : IsFloor source n p := by
  obtain ⟨before, after, text, rfl⟩ := h
  have floor := isFloor_take source n
  have inside : ¬c.utf8Size ≤ n - length before := by omega
  rwa [text, List.append_assoc, take_append_of_le le, List.singleton_append, take, if_neg inside,
    List.append_nil] at floor

end Location

namespace Excerpt

theorem exists_of_isValid (valid : (⟨p⟩ : String.Pos.Raw).IsValid source) :
    ∃ e : Excerpt source "", e.position = p := by
  obtain ⟨cs, ds, split, rfl⟩ := isValid_iff_exists_length.mp valid
  refine exists_of_covers (s := .point (length cs)) ⟨.ofList cs, .ofList ds, ?_, ?_, ?_⟩ (by decide)
  · rw [String.append_empty, ← String.ofList_append, ← split, String.ofList_toList]
  · rw [utf8ByteSize_ofList]; rfl
  · rw [String.append_empty, utf8ByteSize_ofList]; rfl

theorem isValid_position (e : Excerpt source "") :
    (⟨e.position⟩ : String.Pos.Raw).IsValid source :=
  isValid_iff_exists_length.mpr ⟨_, _, e.toList_source, (length_toList _).symm⟩

theorem of_position (e : Excerpt source "") :
    Location.of source e.position = ⟨e.number, e.left.length + 1⟩ :=
  e.location_eq (s := .point e.position) rfl

theorem reaches (e : Excerpt source "") :
    Location.Reaches source ⟨e.number, e.left.length + 1⟩ e.position := by
  have text : source.toList = e.above.toList ++ (e.line.toList ++ e.below.toList) := by
    simp [e.toList_source, line]
  have line_eq : e.line.toList = e.left.toList ++ e.right.toList := by simp [line]
  refine ⟨e.above.toList.count '\n', e.left.length, e.line, rfl, e.getElem?_lines, ?within, ?place⟩
  case within =>
    rw [← String.length_toList, ← String.length_toList, line_eq, List.length_append]
    exact Nat.le_add_right _ _
  case place =>
    rw [startOfLine_eq text e.started, line_eq, List.take_left' String.length_toList, ← length_append,
      ← String.toList_append, length_toList]
    rfl

theorem exists_of_reaches {l : Location} (h : l.Reaches source p) :
    ∃ e : Excerpt source "", e.position = p ∧ l = ⟨e.number, e.left.length + 1⟩ := by
  obtain ⟨i, k, line, rfl, listed, le, rfl⟩ := h
  rw [lines, List.getElem?_map, Option.map_eq_some_iff] at listed
  obtain ⟨cs, piece, rfl⟩ := listed
  obtain ⟨above, below, text, rfl, one_line, started, ended⟩ := exists_above_getElem? piece
  have whole : source = .ofList above ++ .ofList (cs.take k) ++ "" ++ .ofList (cs.drop k) ++
      .ofList below := by
    apply String.toList_inj.mp
    simp [text]
  refine ⟨⟨_, _, _, _, whole, ?above, ?below, by simpa using one_line⟩, ?place, ?location⟩
  case above =>
    obtain rfl | ⟨ds, rfl⟩ := started
    case inl => exact .inl rfl
    case inr => exact .inr ⟨.ofList ds, String.toList_inj.mp (by simp)⟩
  case below =>
    obtain rfl | ⟨ds, rfl⟩ := ended
    case inl => exact .inl rfl
    case inr => exact .inr ⟨.ofList ds, String.toList_inj.mp (by simp)⟩
  case place =>
    show (String.ofList above ++ String.ofList (cs.take k)).utf8ByteSize = _
    rw [startOfLine_eq text started, String.toList_ofList, ← String.ofList_append,
      utf8ByteSize_ofList, length_append]
  case location =>
    show _ = Location.mk ((String.ofList above).toList.count '\n' + 1)
      ((String.ofList (cs.take k)).length + 1)
    rw [String.length_ofList] at le
    rw [String.toList_ofList, String.length_ofList, List.length_take_of_le le]

end Excerpt

namespace Location

theorem reaches_iff {l : Location} :
    l.Reaches source p ↔ (⟨p⟩ : String.Pos.Raw).IsValid source ∧ of source p = l where
  mp h := by
    obtain ⟨e, rfl, rfl⟩ := Excerpt.exists_of_reaches h
    exact ⟨e.isValid_position, e.of_position⟩
  mpr := by
    rintro ⟨valid, rfl⟩
    obtain ⟨e, rfl⟩ := Excerpt.exists_of_isValid valid
    exact e.of_position ▸ e.reaches

-- The location of a position leads back to it, and a position inside a character has the location of
-- that character.
theorem walks_back (source : String) :
    (∀ n, ∃ p, IsFloor source n p ∧ (of source n).Reaches source p) ∧
      (∀ l p, Reaches source l p ↔ p ∈ places source ∧ of source p = l) ∧
      (places source).InjOn (of source) ∧
      (∀ p c, StandsAt source p [c] →
        ∀ n, p ≤ n → n < p + c.utf8Size → of source n = of source p) ∧
      Monotone (fun n => (of source n).key) ∧
      StrictMonoOn (fun p => (of source p).key) (places source) := by
  refine ⟨fun n => ?walk, fun _ _ => reaches_iff, ?injective, ?inside, monotone_key,
    strictMonoOn_key⟩
  case walk =>
    have floor := isFloor_take source n
    exact ⟨_, floor, of_floor floor ▸ reaches_iff.mpr ⟨floor.1.1, rfl⟩⟩
  case injective =>
    intro p hp q hq eq
    exact strictMonoOn_key.injOn hp hq (congrArg key eq)
  case inside =>
    intro p c stands n le lt
    exact of_floor (isFloor_of_standsAt stands le lt)

-- The second byte of a letter of two bytes, and the first byte of the next line.
theorem walks_back_accented :
    StandsAt "aé\nb" 1 ['é'] ∧ of "aé\nb" 2 = of "aé\nb" 1 ∧ Reaches "aé\nb" ⟨2, 1⟩ 4 := by
  have ⟨_, reaches, _, inside, _⟩ := walks_back "aé\nb"
  have stands : StandsAt "aé\nb" 1 ['é'] := ⟨['a'], ['\n', 'b'], by decide, by decide⟩
  have valid : (⟨4⟩ : String.Pos.Raw).IsValid "aé\nb" :=
    isValid_iff_exists_length.mpr ⟨['a', 'é', '\n'], ['b'], by decide, by decide⟩
  exact ⟨stands, inside 1 'é' stands 2 (by decide) (by decide),
    (reaches _ 4).mpr ⟨valid, by decide⟩⟩

end Location
end MarkupTemplate
