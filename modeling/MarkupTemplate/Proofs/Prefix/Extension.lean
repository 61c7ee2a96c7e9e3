import MarkupTemplate.Proofs.Grammar.Acceptance
import MarkupTemplate.Proofs.Prefix.Stable

/-!
Sources that go on. Behind a template only blanks may follow, and an error stays the same error
whatever follows, unless it is at the front of a literal that the source ends in.
-/

namespace MarkupTemplate

open SyntaxError Scan

variable {s w : String} {c d : Cursor}

-- From its position on the source is the front of the literal that is missing there.
def SyntaxError.BreaksOff (e : SyntaxError) (source : String) : Prop :=
  ∃ before after : String, source = before ++ after ∧ before.utf8ByteSize = e.position ∧
    e.cause.BreaksOff after.toList

theorem SyntaxError.breaksOff_of_reads {e : SyntaxError} {before : List Char}
    (reads : (Cursor.start s).Reads before d) (here : e.position = d.position)
    (h : e.cause.BreaksOff d.rest) : e.BreaksOff s := by
  have ⟨split, size⟩ := reads.split
  exact ⟨.ofList before, .ofList d.rest, split, size.trans here.symm, by simpa using h⟩

namespace Tree

theorem parse_of_template_eq_error {cause : Cause} (h : template (.start s) = .error cause d) :
    parse s = .error ⟨cause, d.position⟩ := by
  rw [parse, Cursor.read, h]

theorem parse_append_of_ok {t : Tree Span} (parsed : parse s = .ok t) (w : String) :
    (∀ c ∈ w.toList, isBlank c) ∧ parse (s ++ w) = .ok t ∨
      ∃ (b : Blanks) (c : Char) (rest : List Char), w.toList = b.text ++ c :: rest ∧
        isBlank c = false ∧
          parse (s ++ w) = .error ⟨.unexpected, s.utf8ByteSize + Bytes.length b.text⟩ := by
  have ⟨n, after, proper, text, eq⟩ := parse_eq_ok_iff.mp parsed
  have ⟨b, rest, split, ends⟩ := Blanks.exists_append w.toList
  cases rest
  case nil =>
    have split : w.toList = b.text := by simpa using split
    refine .inl ⟨split ▸ b.blank, parse_eq_ok_iff.mpr ⟨n, after.append b, proper, ?_, eq⟩⟩
    simp [text, split]
  case cons c rest =>
    refine .inr ⟨b, c, rest, split, by simpa using ends, ?_⟩
    let d : Cursor := ⟨Bytes.length (n.text ++ (after.append b).text), c :: rest⟩
    have reads : (Cursor.start (s ++ w)).Reads (n.text ++ (after.append b).text) d :=
      Cursor.start_reads_iff.mpr ⟨by simp [text, split, d], rfl⟩
    have length : s.utf8ByteSize + Bytes.length b.text = d.position := by
      simp [← Bytes.length_toList, text, d, Nat.add_assoc]
    rw [length]
    apply parse_of_template_eq_error
    rw [template_of_reads proper reads ends, if_neg nofun]

-- Where the reading of a source stopped, and what was left of the source there.
theorem stopped_of_parse_eq_error {e : SyntaxError} (failed : parse s = .error e) :
    ∃ before d, (Cursor.start s).Reads before d ∧ e.position = d.position ∧
      template (.start s) = .error e.cause d ∧
        e.position + Bytes.length d.rest = s.utf8ByteSize := by
  have ⟨d, here, stopped⟩ := parse_eq_error failed
  have ⟨before, reads⟩ := template_consumes.error stopped
  have ⟨text, length⟩ := Cursor.start_reads_iff.mp reads
  refine ⟨before, d, reads, here, stopped, ?_⟩
  rw [← Bytes.length_toList, text, Bytes.length_append, here, length]

theorem parse_append_of_error {e : SyntaxError} (failed : parse s = .error e)
    (inner : e.position < s.utf8ByteSize) (w : String) :
    parse (s ++ w) = .error e ∨ e.BreaksOff s := by
  have ⟨before, d, reads, here, stopped, length⟩ := stopped_of_parse_eq_error failed
  have ne : d.rest ≠ [] := by
    intro eq
    simp [eq] at length
    omega
  by_cases whole : e.cause.BreaksOff d.rest
  case pos => exact .inr (breaksOff_of_reads reads here whole)
  case neg =>
    have stopped' := template_stable.error stopped ne whole w.toList
    rw [← Cursor.start_append] at stopped'
    have position : (d.extend w.toList).position = e.position := here.symm
    left
    rw [parse_of_template_eq_error stopped', position]

-- What is missing of a template that does not end in a blank is no blank either.
theorem parse_of_append {t : Tree Span} (parsed : parse (s ++ w) = .ok t) (ne : w ≠ "")
    (last : ∀ c ∈ (s ++ w).toList.getLast?, isBlank c = false) :
    ∃ e, parse s = .error e ∧ (e.position = s.utf8ByteSize ∨ e.BreaksOff s) := by
  cases read : parse s
  case ok u =>
    cases parse_append_of_ok read w
    case inl h =>
      have w_ne : w.toList ≠ [] := by simpa using ne
      have shown : isBlank (w.toList.getLast w_ne) = false := by
        apply last
        simp [List.getLast?_append, List.getLast?_eq_some_getLast w_ne]
      rw [h.1 _ (List.getLast_mem w_ne)] at shown
      cases shown
    case inr h =>
      have ⟨_, _, _, _, _, failed⟩ := h
      cases parsed.symm.trans failed
  case error e =>
    refine ⟨e, rfl, ?_⟩
    have ⟨_, _, _, _, _, length⟩ := stopped_of_parse_eq_error read
    by_cases inner : e.position < s.utf8ByteSize
    case neg => exact .inl (by omega)
    case pos =>
      cases parse_append_of_error read inner w
      case inl failed => cases parsed.symm.trans failed
      case inr h      => exact .inr h

theorem parse_append (s w : String) :
    (∀ t, parse s = .ok t → (∀ c ∈ w.toList, isBlank c) ∧ parse (s ++ w) = .ok t ∨
      ∃ (b : Blanks) (c : Char) (rest : List Char), w.toList = b.text ++ c :: rest ∧
        isBlank c = false ∧
          parse (s ++ w) = .error ⟨.unexpected, s.utf8ByteSize + Bytes.length b.text⟩) ∧
    (∀ e, parse s = .error e → e.position < s.utf8ByteSize →
      parse (s ++ w) = .error e ∨ e.BreaksOff s) ∧
    (∀ t, parse (s ++ w) = .ok t → w ≠ "" →
      (∀ c ∈ (s ++ w).toList.getLast?, isBlank c = false) →
        ∃ e, parse s = .error e ∧ (e.position = s.utf8ByteSize ∨ e.BreaksOff s)) :=
  ⟨fun _ parsed => parse_append_of_ok parsed w,
    fun _ failed inner => parse_append_of_error failed inner w, fun _ => parse_of_append⟩

-- A name behind a template, a sign that begins no node, and the first letter of the word `in`.
theorem parse_append_words :
    (∃ (b : Blanks) (c : Char) (rest : List Char), " y".toList = b.text ++ c :: rest ∧
      isBlank c = false ∧
        parse ("\x7bx\x7d" ++ " y") = .error ⟨.unexpected, 3 + Bytes.length b.text⟩) ∧
    parse ("<a>\x7d" ++ "</a>") = .error ⟨.unexpected, 3⟩ ∧
    SyntaxError.BreaksOff ⟨.missing "in", 7⟩ "\x7bfor x i" := by
  refine ⟨?template, ?error, ?front⟩
  case template =>
    have parsed : parse "\x7bx\x7d" = .ok ⟨⟨1, 2⟩, .var "x"⟩ := by decide +kernel
    cases (parse_append "\x7bx\x7d" " y").1 _ parsed
    case inl h => exact absurd (h.1 'y' (by simp)) (by decide)
    case inr h => exact h
  case error =>
    have failed : parse "<a>\x7d" = .error ⟨.unexpected, 3⟩ := by decide +kernel
    cases (parse_append "<a>\x7d" "</a>").2.1 _ failed (by decide)
    case inl h => exact h
    case inr h =>
      have ⟨_, _, _, _, other⟩ := h
      exact other.elim
  case front =>
    let t : Tree Span := ⟨⟨1, 16⟩, .loop "x" ⟨⟨10, 11⟩, .var "y"⟩ []⟩
    have parsed : parse ("\x7bfor x i" ++ "n y\x7d\x7bend\x7d") = .ok t := by decide +kernel
    have failed : parse "\x7bfor x i" = .error ⟨.missing "in", 7⟩ := by decide +kernel
    have last := not_isBlank_of_mem_signs '\x7d' (by decide)
    have ⟨e, failed', h⟩ := (parse_append _ _).2.2 t parsed (by decide) (by simpa using last)
    cases failed.symm.trans failed'
    cases h
    case inl h => cases h
    case inr h => exact h

end Tree
end MarkupTemplate
