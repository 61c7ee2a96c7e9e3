import Mathlib.Data.Set.Subsingleton
import MarkupTemplate.Proofs.Grammar.Completeness
import MarkupTemplate.Proofs.Grammar.Soundness

/-!
The sources that are templates. `parse_eq_ok_iff` says that a source is read as the tree of its
derivation, and `parse_iff_derives` that it is read exactly if it has one, which then is the only
one. `parse_eq_error` is what is left of a source that has none.
-/

namespace MarkupTemplate

variable {source : String}

theorem Cursor.start_reads_iff {cs : List Char} {d : Cursor} :
    (start source).Reads cs d ↔ source.toList = cs ++ d.rest ∧ d.position = Bytes.length cs := by
  constructor
  · exact fun h => ⟨h.rest, by simpa [start] using h.position⟩
  · exact fun ⟨rest, position⟩ => ⟨rest, by simpa [start] using position⟩

theorem Cursor.Reads.split {cs : List Char} {d : Cursor} (h : (start source).Reads cs d) :
    source = .ofList cs ++ .ofList d.rest ∧ (String.ofList cs).utf8ByteSize = d.position := by
  have ⟨text, position⟩ := start_reads_iff.mp h
  constructor
  · rw [← String.ofList_append, ← text, String.ofList_toList]
  · rw [Bytes.utf8ByteSize_ofList, position]

namespace Scan

open State

variable {c d : Cursor} {t : Tree Span}

-- A node is read whatever follows it, but then nothing may be left behind the blanks.
theorem template_of_reads {n : Derivation} {after : Blanks} (proper : n.Proper)
    (reads : c.Reads (n.text ++ after.text) d) (ends : ¬Leads isBlank d.rest) :
    template c = if d.rest = [] then .ok (n.tree c.position) d else .error .unexpected d := by
  have ⟨m, node, blanks⟩ := Cursor.Reads.append_iff.mp reads
  have run : run (.content []) c = .ok (n.tree c.position) m := isRead_of_proper proper nofun node
  have looked : atEnd d = .ok d.rest.isEmpty d := rfl
  rw [template, bind_eq_of_ok run, bind_eq_of_ok (blanks_of_reads blanks ends),
    bind_eq_of_ok looked]
  simp only [List.isEmpty_iff]
  split <;> rfl

theorem template_eq_ok_iff : template c = .ok t d ↔
    ∃ (n : Derivation) (after : Blanks),
      n.Proper ∧ c.Reads (n.text ++ after.text) d ∧ d.rest = [] ∧ t = n.tree c.position where
  mp h := by
    simp only [template, bind_eq_ok_iff, blanks_eq_ok_iff, atEnd_eq_ok_iff] at h
    obtain ⟨u, _, run, _, _, ⟨after, blanks, -⟩, e, _, ⟨atEnd, rfl⟩, h⟩ := h
    obtain ⟨n, proper, reads, rfl⟩ := reached_of_run_ok (Stage.reached_start c) rfl run
    split at h
    case isFalse => exact absurd h throw_ne_ok
    case isTrue last =>
      obtain ⟨rfl, rfl⟩ := pure_eq_ok_iff.mp h
      exact ⟨n, after, proper, reads.trans blanks, atEnd.mp last, rfl⟩
  mpr := by
    rintro ⟨n, after, proper, reads, last, rfl⟩
    rw [template_of_reads proper reads (by simp [last]), if_pos last]

-- Either the node itself is not completed, or something else follows it.
theorem template_eq_error {cause : SyntaxError.Cause} (h : template c = .error cause d) :
    (∃ (stage : Stage) (m : Cursor), stage.Reached c m ∧
      step (stage.state c.position) m = .error cause d) ∨
    ∃ (n : Derivation) (after : Blanks), cause = .unexpected ∧
      n.Proper ∧ c.Reads (n.text ++ after.text) d ∧ d.rest ≠ [] := by
  obtain h₁ | ⟨u, _, run, h₁⟩ := bind_eq_error_iff.mp h
  case inl => exact .inl (reached_of_run_error (Stage.reached_start c) rfl h₁)
  case inr =>
    obtain ⟨n, proper, reads, -⟩ := reached_of_run_ok (Stage.reached_start c) rfl run
    obtain h₂ | ⟨_, m, skipped, h₂⟩ := bind_eq_error_iff.mp h₁
    case inl => exact absurd h₂ blanks_ne_error
    obtain ⟨after, blanks, -⟩ := blanks_eq_ok_iff.mp skipped
    obtain h₃ | ⟨e, _, looked, h₃⟩ := bind_eq_error_iff.mp h₂
    case inl => exact nomatch h₃
    obtain ⟨atEnd, rfl⟩ := atEnd_eq_ok_iff.mp looked
    split at h₃
    case isTrue => exact absurd h₃ pure_ne_error
    case isFalse more =>
      obtain ⟨rfl, rfl⟩ := throw_eq_error_iff.mp h₃
      exact .inr ⟨n, after, rfl, proper, reads.trans blanks, mt atEnd.mpr more⟩

end Scan

namespace Tree

theorem parse_eq_ok_iff {t : Tree Span} : parse source = .ok t ↔
    ∃ (n : Derivation) (after : Blanks),
      n.Proper ∧ source.toList = n.text ++ after.text ∧ t = n.tree 0 := by
  have parse : parse source = .ok t ↔ ∃ d, Scan.template (.start source) = .ok t d := by
    rw [Tree.parse, Cursor.read]
    cases Scan.template (.start source) <;> simp
  simp only [parse, Scan.template_eq_ok_iff, Cursor.start_reads_iff]
  constructor
  · rintro ⟨d, n, after, proper, ⟨text, -⟩, last, rfl⟩
    exact ⟨n, after, proper, by simpa [last] using text, rfl⟩
  · rintro ⟨n, after, proper, text, rfl⟩
    exact ⟨⟨_, []⟩, n, after, proper, ⟨by simpa using text, rfl⟩, rfl, rfl⟩

theorem parse_eq_error {e : SyntaxError} (h : parse source = .error e) :
    ∃ d : Cursor, e.position = d.position ∧ Scan.template (.start source) = .error e.cause d := by
  rw [parse, Cursor.read] at h
  cases eq : Scan.template (.start source) with
  | ok t d      => simp [eq] at h
  | error _ d   =>
    simp only [eq, Except.error.injEq] at h
    exact ⟨d, by rw [← h], by rw [← h]⟩

theorem parse_iff_derives (source : String) :
    (∀ t, (∃ u, parse source = .ok u ∧ u.shape = t) ↔ Derives source t) ∧
      {t | Derives source t}.Subsingleton := by
  have derives (t : Shape) : (∃ u, parse source = .ok u ∧ u.shape = t) ↔ Derives source t := by
    constructor
    · rintro ⟨u, ok, rfl⟩
      obtain ⟨n, after, proper, text, rfl⟩ := parse_eq_ok_iff.mp ok
      exact ⟨n, after, proper, text, (n.shape_tree 0).symm⟩
    · rintro ⟨n, after, proper, text, rfl⟩
      exact ⟨n.tree 0, parse_eq_ok_iff.mpr ⟨n, after, proper, text, rfl⟩, n.shape_tree 0⟩
  refine ⟨derives, fun t ht t' ht' => ?_⟩
  obtain ⟨u, ok, rfl⟩ := (derives t).mpr ht
  obtain ⟨u', ok', rfl⟩ := (derives t').mpr ht'
  cases ok.symm.trans ok'
  rfl

-- The second value of an attribute is the one that counts, and `end` in an element is a name.
theorem derives_of_parse : Derives "<a x=\x7by\x7d x=\x7bz\x7d>\x7bend\x7d</a>"
    ⟨(), .element "a" [("x", ⟨(), .var "z"⟩)] [⟨(), .var "end"⟩]⟩ := by
  let z : Tree Span := ⟨⟨12, 13⟩, .var "z"⟩
  let body : Tree Span := ⟨⟨16, 19⟩, .var "end"⟩
  let t : Tree Span := ⟨⟨0, 24⟩, .element "a" [("x", z)] [body]⟩
  exact ((parse_iff_derives _).1 _).mp ⟨t, by decide +kernel, rfl⟩

end Tree
end MarkupTemplate
