import MarkupTemplate.Proofs.Blame.Underline
import MarkupTemplate.Proofs.Source.Boundary

/-!
The snippet at any span, be it reversed, past the end of the source or with ends inside characters.
Both ends are moved down to where a character starts, and what is between them on the first line is
underlined (`Snippet.text_of_span`).
-/

namespace MarkupTemplate

open Bytes Snippet

theorem not_mem_toString (n : Nat) : '\n' ∉ (toString n).toList := by
  intro mem
  rw [Nat.toString_eq_repr, Nat.toList_repr] at mem
  have digit := Nat.isDigit_of_mem_toDigits (by decide) (by decide) mem
  cases digit

theorem getElem?_append_replicate {cs : List Char} {c : Char} (h : c ∉ cs) (n i : Nat) :
    (cs ++ List.replicate n c)[i]? = some c ↔ cs.length ≤ i ∧ i < cs.length + n := by
  rw [List.getElem?_append]
  split
  case isTrue lt =>
    have ne : cs[i]? ≠ some c := fun eq => h (List.mem_of_getElem? eq)
    simp only [ne, false_iff]
    omega
  case isFalse =>
    rw [List.getElem?_replicate, ite_eq_left_iff]
    simp only [reduceCtorEq, imp_false, not_not]
    omega

namespace Excerpt

variable {source word : String} {s : Span}

def line (e : Excerpt source word) : String :=
  e.left ++ word ++ e.right

def lineStart (e : Excerpt source word) : Nat :=
  e.above.utf8ByteSize

def lineEnd (e : Excerpt source word) : Nat :=
  (e.above ++ e.line).utf8ByteSize

-- The word of an excerpt is what lies from `a` to `b` on the line of `a`. All that is read from the
-- source to find this out lies within the source and cuts through no character.
structure Cuts (e : Excerpt source word) (s : Span) (a b : Nat) : Prop where
  start  : IsFloor source s.start a
  stop   : IsFloor source (max s.stop a) b
  before : Span.Covers ⟨0, a⟩ source (e.above ++ e.left)
  after  : Span.Covers ⟨a, source.utf8ByteSize⟩ source (word ++ e.right ++ e.below)
  left   : Span.Covers ⟨e.lineStart, a⟩ source e.left
  line   : Span.Covers ⟨e.lineStart, e.lineEnd⟩ source e.line
  word   : Span.Covers ⟨a, min b e.lineEnd⟩ source word

-- The line after its number.
def numbered (e : Excerpt source word) : String :=
  toString e.number ++ " | " ++ e.line

-- A caret for each character of the word, or a single one if there is none.
def carets (e : Excerpt source word) : String :=
  repeated (toString e.number).length ' ' ++ " | " ++ repeated e.left.length ' ' ++
    repeated (max 1 word.length) '^'

-- How many characters stand in front of the word, after the number of its line.
def indent (e : Excerpt source word) : Nat :=
  (toString e.number ++ " | " ++ e.left).length

variable (e : Excerpt source word)

theorem not_mem_line : '\n' ∉ e.line.toList :=
  e.one_line

theorem not_mem_numbered : '\n' ∉ e.numbered.toList := by
  rw [numbered, String.toList_append, String.toList_append, List.mem_append, List.mem_append]
  simp only [not_mem_toString, not_mem_line, or_false, false_or]
  decide

theorem not_mem_carets : '\n' ∉ e.carets.toList := by
  simp [carets, repeated]

theorem getElem?_numbered {i : Nat} (h : i < word.length) :
    e.numbered.toList[e.indent + i]? = word.toList[i]? := by
  have split : e.numbered.toList =
      (toString e.number ++ " | " ++ e.left).toList ++ (word.toList ++ e.right.toList) := by
    simp [numbered, line]
  rw [← String.length_toList] at h
  rw [split, indent, ← String.length_toList, List.getElem?_append_right (Nat.le_add_right _ _),
    Nat.add_sub_cancel_left, List.getElem?_append_left h]

theorem getElem?_carets (i : Nat) : e.carets.toList[i]? = some '^' ↔
    e.indent ≤ i ∧ i < e.indent + max 1 word.length := by
  let spaces := List.replicate (toString e.number).length ' ' ++ [' ', '|', ' '] ++
    List.replicate e.left.length ' '
  have split : e.carets.toList = spaces ++ List.replicate (max 1 word.length) '^' := by
    simp [carets, repeated, spaces]
  have length : e.indent = spaces.length := by
    simp only [indent, spaces, String.length_append, List.length_append, List.length_replicate]
    rfl
  rw [split, length]
  exact getElem?_append_replicate (by simp [spaces]) _ _

theorem started : e.above.toList = [] ∨ ∃ cs, e.above.toList = cs ++ ['\n'] := by
  obtain eq | ⟨before, eq⟩ := e.above_eq
  case inl => exact .inl (by rw [eq]; rfl)
  case inr => exact .inr ⟨before.toList, by rw [eq, String.toList_append]; rfl⟩

theorem ended : e.below.toList = [] ∨ ∃ ds, e.below.toList = '\n' :: ds := by
  obtain eq | ⟨after, eq⟩ := e.below_eq
  case inl => exact .inl (by rw [eq]; rfl)
  case inr => exact .inr ⟨after.toList, by rw [eq, String.toList_append]; rfl⟩

theorem getElem?_lines : (lines source)[e.number - 1]? = some e.line := by
  have split : source.toList = e.above.toList ++ (e.line.toList ++ e.below.toList) := by
    rw [toList_source e]
    simp [line]
  have piece := getElem?_splitOn e.not_mem_line e.started e.ended
  rw [lines, number, Nat.add_sub_cancel, List.getElem?_map, split, piece, Option.map_some,
    String.ofList_toList]

theorem lineEnd_eq : e.lineEnd = e.position + word.utf8ByteSize + e.right.utf8ByteSize := by
  simp only [lineEnd, line, position, String.utf8ByteSize_append]
  omega

-- If more is taken than the word, it starts with the line feed that ends the line.
theorem min_lineEnd {n : Nat} {more : List Char}
    (taken : take n (word ++ e.right ++ e.below).toList = word.toList ++ more)
    (ended : ¬Leads sameLine more) :
    min (e.position + length (word.toList ++ more)) e.lineEnd =
      e.position + word.utf8ByteSize := by
  rw [lineEnd_eq, length_append, length_toList]
  cases more with
  | nil => simp
  | cons c more =>
    have right : e.right.toList = [] := by
      have split := take_append_drop n (word ++ e.right ++ e.below).toList
      rw [taken, String.append_assoc, String.toList_append, List.append_assoc] at split
      by_contra ne
      have same : ∀ c ∈ e.right.toList, sameLine c :=
        forall_sameLine_iff.mpr fun mem => e.one_line (by simp [mem])
      have leads := Leads.of_all same ne e.below.toList
      rw [← String.toList_append, ← List.append_cancel_left split] at leads
      exact ended leads
    rw [← length_toList e.right, right, length_nil]
    omega

theorem cuts_of_ends {b : Nat} (start : IsFloor source s.start e.position)
    (stop : IsFloor source (max s.stop e.position) b)
    (ends : min b e.lineEnd = e.position + word.utf8ByteSize) : e.Cuts s e.position b where
  start  := start
  stop   := stop
  before := ⟨"", word ++ e.right ++ e.below,
    by simpa [String.append_assoc] using e.source_eq, rfl, rfl⟩
  after  := ⟨e.above ++ e.left, "",
    by simpa [String.append_assoc] using e.source_eq, rfl,
    by simpa [String.append_assoc] using congrArg String.utf8ByteSize e.source_eq⟩
  left   := ⟨e.above, word ++ e.right ++ e.below,
    by simpa [String.append_assoc] using e.source_eq, rfl, rfl⟩
  line   := ⟨e.above, e.below,
    by simpa [line, String.append_assoc] using e.source_eq, rfl, rfl⟩
  word   := ⟨e.above ++ e.left, e.right ++ e.below,
    by simpa [String.append_assoc] using e.source_eq, rfl,
    by rw [ends, String.utf8ByteSize_append]; rfl⟩

end Excerpt

namespace Snippet

variable (source : String) (s : Span)

-- What lies between the ends of the span.
def between : List Char :=
  take (s.stop - length (of.before source s)) (of.after source s)

-- The part of the span on its first line.
def marked : String :=
  .ofList ((between source s).takeWhile sameLine)

theorem between_eq : between source s =
    (marked source s).toList ++ (between source s).dropWhile sameLine := by
  simp [marked]

theorem exists_excerpt :
    ∃ e : Excerpt source (marked source s), e.position = length (of.before source s) := by
  have split : source.toList = of.before source s ++ of.after source s :=
    (take_append_drop s.start source.toList).symm
  obtain ⟨rest, after⟩ : ∃ rest, of.after source s = (marked source s).toList ++ rest := by
    rw [← take_append_drop (s.stop - length (of.before source s)) (of.after source s), ← between,
      between_eq, List.append_assoc]
    exact ⟨_, rfl⟩
  have covers : Span.Covers ⟨length (of.before source s),
      length (of.before source s ++ (marked source s).toList)⟩ source (marked source s) := by
    refine ⟨.ofList (of.before source s), .ofList rest, ?_, ?_, ?_⟩
    · apply String.toList_inj.mp
      simp [split, after]
    · rw [utf8ByteSize_ofList]
    · rw [String.utf8ByteSize_append, utf8ByteSize_ofList, length_append, length_toList]
  apply Excerpt.exists_of_covers covers
  apply Excerpt.forall_sameLine_iff.mp
  rw [marked, String.toList_ofList]
  exact List.all_eq_true.mp List.all_takeWhile

variable {source s}

-- A start inside a character stands for where the character starts.
theorem before_floor (stop : Nat) :
    of.before source ⟨length (of.before source s), stop⟩ = of.before source s :=
  take_length_take s.start source.toList

theorem after_floor (stop : Nat) :
    of.after source ⟨length (of.before source s), stop⟩ = of.after source s :=
  drop_length_take s.start source.toList

theorem location_floor : Location.of source (length (of.before source s)) = .of source s.start :=
  congrArg (List.foldl Location.after .first) (before_floor s.stop)

section

variable (e : Excerpt source (marked source s)) (start : e.position = length (of.before source s))

include start

theorem location_eq : Location.of source s.start = ⟨e.number, e.left.length + 1⟩ := by
  rw [← location_floor, ← start]
  exact e.location_eq (s := .point e.position) rfl

theorem of_eq :
    of source s = ⟨⟨e.number, e.left.length + 1⟩, e.line, max 1 (marked source s).length⟩ := by
  have line := e.line_eq (s := .point e.position) rfl
  rw [start, Span.point, before_floor, after_floor] at line
  have width : ((between source s).takeWhile sameLine).length = (marked source s).length := by
    rw [marked, ← String.length_toList, String.toList_ofList]
  rw [of, location_eq e start, line, String.ofList_toList, ← between, width, Excerpt.line]

theorem stop_eq : min (length (take (max s.stop e.position) source.toList)) e.lineEnd =
    e.position + (marked source s).utf8ByteSize := by
  have after := e.after_eq (s := .point e.position) rfl
  rw [start, Span.point, after_floor] at after
  have taken : take (s.stop - e.position) (marked source s ++ e.right ++ e.below).toList =
      (marked source s).toList ++ (between source s).dropWhile sameLine := by
    rw [← between_eq, between, after, start]
  have size : length (e.above ++ e.left).toList = e.position := length_toList _
  have past : max s.stop e.position - e.position = s.stop - e.position := by omega
  rw [e.toList_source, take_append_of_le (by omega), length_append, size, past, taken]
  exact e.min_lineEnd taken Leads.not_dropWhile

theorem cuts : e.Cuts s e.position (length (take (max s.stop e.position) source.toList)) := by
  refine e.cuts_of_ends ?_ (isFloor_take source _) (stop_eq e start)
  rw [start]
  exact isFloor_take source s.start

end

theorem text_of_span (source : String) (s : Span) :
    let l := Location.of source s.start
    ∃ a b word, ∃ e : Excerpt source word, e.Cuts s a b ∧
      (of source s).location = l ∧ Location.of source a = l ∧ l = ⟨e.number, e.left.length + 1⟩ ∧
      (lines source)[e.number - 1]? = some e.line ∧
      (of source s).text = e.numbered ++ "\n" ++ e.carets ∧
      '\n' ∉ e.numbered.toList ∧ '\n' ∉ e.carets.toList ∧
      (∀ i < word.length, e.numbered.toList[e.indent + i]? = word.toList[i]?) ∧
      ∀ i, e.carets.toList[i]? = some '^' ↔ e.indent ≤ i ∧ i < e.indent + max 1 word.length := by
  intro l
  have ⟨e, start⟩ := exists_excerpt source s
  refine ⟨_, _, _, e, cuts e start, rfl, ?floor, location_eq e start, e.getElem?_lines, ?text,
    e.not_mem_numbered, e.not_mem_carets, fun i => e.getElem?_numbered, e.getElem?_carets⟩
  case floor =>
    rw [start]
    exact location_floor
  case text =>
    rw [of_eq e start]
    simp [text, text.number, Excerpt.numbered, Excerpt.carets, String.append_assoc]

-- The span starts inside the second character and goes on behind the end of the source.
example : (of "aé\nb" ⟨2, 9⟩).text = "1 | aé\n  |  ^" := by
  decide +kernel

end Snippet
end MarkupTemplate
