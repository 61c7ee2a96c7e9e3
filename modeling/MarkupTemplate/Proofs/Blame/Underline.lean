import MarkupTemplate.Proofs.Grammar.Word
import MarkupTemplate.Proofs.Place.Covers
import MarkupTemplate.Source.Snippet

/-!
What the snippet at a word of a source looks like. `Excerpt.snippet_eq` says that it shows the line
of the word, and `Snippet.text_of_covers` that there is a caret below each character of the word and
none anywhere else.
-/

namespace MarkupTemplate

-- A source cut up around a word: the lines above the word, what is left and right of it on its own
-- line, and the lines below.
structure Excerpt (source word : String) where
  above : String
  left : String
  right : String
  below : String
  source_eq : source = above ++ left ++ word ++ right ++ below
  above_eq : above = "" ∨ ∃ lines, above = lines ++ "\n"
  below_eq : below = "" ∨ ∃ lines, below = "\n" ++ lines
  one_line : '\n' ∉ (left ++ word ++ right).toList

namespace Excerpt

open Snippet

variable {source word : String} {s : Span} {cs : List Char}

def number (e : Excerpt source word) : Nat :=
  e.above.toList.count '\n' + 1

def position (e : Excerpt source word) : Nat :=
  (e.above ++ e.left).utf8ByteSize

-- The line of the word after its number, and below that the carets.
def underlined (e : Excerpt source word) : String :=
  toString e.number ++ " | " ++ (e.left ++ word ++ e.right) ++ "\n" ++
    repeated (toString e.number).length ' ' ++ " | " ++ repeated e.left.length ' ' ++
    repeated word.length '^'

theorem sameLine_iff {c : Char} : sameLine c ↔ c ≠ '\n' :=
  decide_eq_true_iff

theorem forall_sameLine_iff : (∀ c ∈ cs, sameLine c) ↔ '\n' ∉ cs := by
  simp only [sameLine_iff]
  exact ⟨fun h mem => h _ mem rfl, fun h c hc eq => h (eq ▸ hc)⟩

theorem not_leads_sameLine_iff : ¬Leads sameLine cs ↔ cs = [] ∨ ∃ ds, cs = '\n' :: ds := by
  cases cs <;> simp [sameLine_iff]

theorem exists_below (text : String) : ∃ right below : String, text = right ++ below ∧
    '\n' ∉ right.toList ∧ (below = "" ∨ ∃ lines, below = "\n" ++ lines) := by
  have ⟨right, below, split, same, ended⟩ := Leads.exists_append sameLine text.toList
  refine ⟨.ofList right, .ofList below, ?split, ?line, ?below⟩
  case split => rw [← String.ofList_append, ← split, String.ofList_toList]
  case line  => simpa using forall_sameLine_iff.mp same
  case below =>
    cases not_leads_sameLine_iff.mp ended
    case inl h => simp [h]
    case inr h =>
      have ⟨lines, eq⟩ := h
      refine .inr ⟨.ofList lines, ?_⟩
      apply String.toList_inj.mp
      simp [eq]

theorem exists_above (text : String) : ∃ above left : String, text = above ++ left ∧
    '\n' ∉ left.toList ∧ (above = "" ∨ ∃ lines, above = lines ++ "\n") := by
  have ⟨left, above, split, one_line, ended⟩ := exists_below (.ofList text.toList.reverse)
  have reverse := congrArg (String.ofList ·.toList.reverse) split
  simp only [String.toList_ofList, List.reverse_reverse, String.ofList_toList, String.toList_append,
    List.reverse_append, String.ofList_append] at reverse
  refine ⟨_, _, reverse, by simpa using one_line, ?_⟩
  cases ended
  case inl h => simp [h]
  case inr h =>
    have ⟨lines, eq⟩ := h
    refine .inr ⟨.ofList lines.toList.reverse, ?_⟩
    apply String.toList_inj.mp
    simp [eq]

theorem exists_of_covers (h : s.Covers source word) (one_line : '\n' ∉ word.toList) :
    ∃ e : Excerpt source word, e.position = s.start := by
  have ⟨before, after, source_eq, start, _⟩ := h
  have ⟨above, left, before_eq, left_line, above_eq⟩ := exists_above before
  have ⟨right, below, after_eq, right_line, below_eq⟩ := exists_below after
  have whole : source = above ++ left ++ word ++ right ++ below := by
    simp [source_eq, before_eq, after_eq, String.append_assoc]
  refine ⟨⟨above, left, right, below, whole, above_eq, below_eq, ?_⟩, ?_⟩
  · simp [left_line, one_line, right_line]
  · rw [start, before_eq]
    rfl

variable (e : Excerpt source word)

theorem toList_source :
    source.toList = (e.above ++ e.left).toList ++ (word ++ e.right ++ e.below).toList := by
  have := congrArg String.toList e.source_eq
  simpa

theorem before_eq (start : s.start = e.position) :
    of.before source s = (e.above ++ e.left).toList := by
  rw [of.before, start, position, ← Bytes.length_toList, toList_source e, Bytes.take_length_append]

theorem after_eq (start : s.start = e.position) :
    of.after source s = (word ++ e.right ++ e.below).toList := by
  rw [of.after, start, position, ← Bytes.length_toList, toList_source e, Bytes.drop_length_append]

theorem not_leads_above : ¬Leads sameLine e.above.toList.reverse := by
  cases e.above_eq
  case inl h => simp [h]
  case inr h =>
    have ⟨lines, eq⟩ := h
    simp [eq, sameLine_iff]

theorem not_leads_below : ¬Leads sameLine e.below.toList := by
  cases e.below_eq
  case inl h => simp [h]
  case inr h =>
    have ⟨lines, eq⟩ := h
    simp [eq, sameLine_iff]

theorem column_above : (e.above.toList.foldl Location.after .first).column = 1 := by
  cases e.above_eq
  case inl h => simp [h, Location.first]
  case inr h =>
    have ⟨lines, eq⟩ := h
    simp [eq, Location.after]

theorem not_mem_left : '\n' ∉ e.left.toList :=
  fun h => e.one_line (by simp [h])

theorem location_eq (start : s.start = e.position) :
    Location.of source s.start = ⟨e.number, e.left.length + 1⟩ := by
  rw [Location.of, start, position, ← Bytes.length_toList, toList_source e,
    Bytes.take_length_append, String.toList_append, List.foldl_append, Location.mk.injEq,
    Location.line_foldl_after, Location.line_foldl_after,
    Location.column_foldl_after_of_not_mem e.not_mem_left, e.column_above,
    List.count_eq_zero.mpr e.not_mem_left, String.length_toList]
  exact ⟨Nat.add_comm 1 _, Nat.add_comm 1 _⟩

theorem line_eq (start : s.start = e.position) :
    ((of.before source s).reverse.takeWhile sameLine).reverse ++
      (of.after source s).takeWhile sameLine = (e.left ++ word ++ e.right).toList := by
  have left : (of.before source s).reverse.takeWhile sameLine = e.left.toList.reverse := by
    rw [before_eq e start, String.toList_append, List.reverse_append]
    apply Leads.takeWhile_append _ e.not_leads_above
    apply forall_sameLine_iff.mpr
    simpa using e.not_mem_left
  have right : (of.after source s).takeWhile sameLine = (word ++ e.right).toList := by
    rw [after_eq e start, String.toList_append]
    apply Leads.takeWhile_append _ e.not_leads_below
    apply forall_sameLine_iff.mpr
    intro h
    apply e.one_line
    rw [String.append_assoc, String.toList_append]
    exact List.mem_append_right _ h
  simp [left, right]

theorem snippet_eq (h : s.Covers source word) (ne : word ≠ "") (start : s.start = e.position) :
    Snippet.of source s =
      ⟨⟨e.number, e.left.length + 1⟩, e.left ++ word ++ e.right, word.length⟩ := by
  have marked : (Bytes.take (s.stop - Bytes.length (of.before source s))
      (of.after source s)).takeWhile sameLine = word.toList := by
    have length : s.stop - Bytes.length (of.before source s) = Bytes.length word.toList := by
      rw [h.length_eq, before_eq e start, start, Bytes.length_toList, Bytes.length_toList, position]
      omega
    rw [length, after_eq e start, String.append_assoc, String.toList_append,
      Bytes.take_length_append, List.takeWhile_eq_self_iff]
    apply forall_sameLine_iff.mpr
    exact fun h => e.one_line (by simp [h])
  have pos : 0 < word.length := by
    apply Nat.pos_of_ne_zero
    simpa using ne
  rw [Snippet.of, location_eq e start, line_eq e start, marked, String.ofList_toList,
    String.length_toList, Nat.max_eq_right pos]

end Excerpt

theorem Snippet.text_of_covers {source word : String} {s : Span} (h : s.Covers source word)
    (ne : word ≠ "") (one_line : '\n' ∉ word.toList) : ∃ e : Excerpt source word,
      e.position = s.start ∧ (Snippet.of source s).text = e.underlined := by
  have ⟨e, position⟩ := Excerpt.exists_of_covers h one_line
  refine ⟨e, position, ?_⟩
  rw [e.snippet_eq h ne position.symm]
  rfl

end MarkupTemplate
