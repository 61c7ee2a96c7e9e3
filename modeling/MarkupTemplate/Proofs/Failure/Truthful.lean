import MarkupTemplate.Proofs.Failure.Completion
import MarkupTemplate.Proofs.Failure.Phrase
import MarkupTemplate.Proofs.Grammar.Acceptance

/-!
Errors are truthful. `Stage.Reached.stuck` says where a step fails that was taken from a stage of
some derivation, and with what the text up to there can go on. All constructs that are open there
can be closed, so up to the error the source is the front of a template.
-/

namespace MarkupTemplate

open SyntaxError Scan State Unfinished

variable {source c d m : Cursor} {us outer : List Unfinished} {cs text : List Char} {cause : Cause}
  {frames : List Frame}

theorem startTag_stuck (h : startTag frames c = .error cause d) (sign : ['<'] <+: c.rest) :
    ∃ n : Name, Stuck c (['<'] ++ n.text) cause d := by
  simp only [startTag, bind_eq_error_iff, position_ne_error, false_or, literal_eq_error_iff,
    literal_eq_ok_iff, pure_ne_error, and_false, exists_false, or_false] at h
  obtain ⟨_, _, here, ⟨-, -, other⟩ | ⟨_, _, opened, h⟩⟩ := h
  all_goals cases here
  case inl => exact absurd sign (by simpa using other)
  case inr => exact ⟨.in_, (Stuck.tagName h .in_).after opened⟩

theorem braces_stuck (h : braces frames c = .error cause d) (sign : ['{'] <+: c.rest) :
    (∃ x : Braced, x.name.string ≠ "for" ∧ Stuck c x.text cause d) ∨
    ∃ (left : Blanks) (header : LoopHeader),
      Stuck c (['{'] ++ left.text ++ ['f', 'o', 'r'] ++ header.text) cause d := by
  simp only [braces, bind_eq_error_iff, literal_eq_error_iff, literal_eq_ok_iff, blanks_ne_error,
    false_or, blanks_eq_ok_iff, name_eq_ok_iff] at h
  obtain ⟨-, -, other⟩ | ⟨_, _, opened, _, _, ⟨left, hl, -⟩, h⟩ := h
  case inl => exact absurd sign (by simpa using other)
  obtain h | ⟨_, _, ⟨x, hx, ends, rfl⟩, h⟩ := h
  case inl =>
    have stuck := (Stuck.identifier h .none .in_).after (opened.trans hl)
    refine .inl ⟨⟨left, .in_, .none⟩, Name.string_in_ne_for, ?_⟩
    simpa [Braced.text] using stuck.append
  have front := (opened.trans hl).trans hx
  split at h
  case isTrue eq =>
    cases Name.string_eq_for_iff.mp eq
    simp only [bind_eq_error_iff, pure_ne_error, and_false, exists_false, or_false] at h
    obtain ⟨header, stuck⟩ := loopHeader_stuck h ends
    exact .inr ⟨left, header, stuck.after front⟩
  case isFalse ne =>
    simp only [bind_eq_error_iff, blanks_ne_error, false_or, blanks_eq_ok_iff, pure_ne_error,
      and_false, exists_false, or_false] at h
    obtain ⟨_, _, ⟨right, hr, -⟩, h⟩ := h
    have stuck := (Stuck.literal h (by decide) .none).after (front.trans hr)
    exact .inl ⟨⟨left, x, right⟩, ne, by simpa [Braced.text] using stuck⟩

-- Where a node should begin, it breaks off, or something stands there that cannot begin one.
theorem item_stuck (h : item frames m = .error cause d) :
    (∃ text, Stuck m text cause d ∧
      ∀ us (b : Blanks), (∀ u ∈ us, u.Proper) → Viable us (b.text ++ text)) ∨
    cause = .unexpected ∧ d = m ∧ Cause.unexpected.Lacks m.rest := by
  simp only [item, bind_eq_error_iff, sees_ne_error, false_or, sees_eq_ok_iff] at h
  obtain ⟨_, _, ⟨tag, rfl⟩, h⟩ := h
  split at h
  case isTrue sign =>
    obtain ⟨n, stuck⟩ := startTag_stuck h (by simpa using tag.mp sign)
    refine .inl ⟨_, stuck, fun us b proper => ?_⟩
    simpa [TagStart.text, TagStart.bare] using Viable.of_tagStart (.bare b n) proper
  case isFalse no_tag =>
    simp only [bind_eq_error_iff, sees_ne_error, false_or, sees_eq_ok_iff] at h
    obtain ⟨_, _, ⟨brace, rfl⟩, h⟩ := h
    split at h
    case isTrue sign =>
      obtain ⟨x, ne, stuck⟩ | ⟨left, header, stuck⟩ := braces_stuck h (by simpa using brace.mp sign)
      case inl => exact .inl ⟨_, stuck, fun us b => Viable.of_braced b ne⟩
      case inr =>
        refine .inl ⟨_, stuck, fun us b proper => ?_⟩
        simpa [LoopStart.text] using Viable.of_loopStart ⟨b, left, header⟩ proper
    case isFalse no_brace =>
      obtain ⟨rfl, rfl⟩ := throw_eq_error_iff.mp h
      exact .inr ⟨rfl, rfl, by simpa using mt tag.mpr no_tag, by simpa using mt brace.mpr no_brace⟩

-- Right behind the name of a tag a blank must come before the first attribute.
theorem attribute_stuck {start : TagStart} {b : Blanks} (blanks : c.Reads b.text m)
    (h : assignment m = .error cause d) (sign : ¬['>'] <+: m.rest)
    (ends : start.attributes = [] → ¬Leads isAlphabetic c.rest) :
    ∃ next : TagStart, ∃ text, next.text = start.text ++ text ∧ Stuck c text cause d := by
  by_cases letter : Leads isAlphabetic m.rest
  case pos =>
    have ⟨a, stuck⟩ := assignment_stuck h letter
    have parted (eq : start.attributes = []) : b.text ≠ [] := blanks.blanks_ne_nil (ends eq) letter
    exact ⟨start.push b a parted, _, TagStart.text_push, stuck.after blanks⟩
  case neg =>
    have unnamed : name .attributeName m = .error cause d := by
      obtain h | ⟨_, _, ok, _⟩ := bind_eq_error_iff.mp h
      case inl => exact h
      case inr =>
        obtain ⟨_, reads, _⟩ := name_eq_ok_iff.mp ok
        exact absurd reads.name_isAlphabetic letter
    let a : Assignment := ⟨.in_, .none, .none, ⟨.none, .in_, .none⟩⟩
    have stuck := (Stuck.name unnamed nofun (fun _ => sign) Gap.space.toBlanks .in_).after blanks
    have parted (_ : start.attributes = []) : (Gap.after b).text ≠ [] := (Gap.after b).nonempty
    refine ⟨start.push (Gap.after b).toBlanks a parted, _, TagStart.text_push, ?_⟩
    simpa [a, Assignment.text] using stuck.append

-- A failure at `d`, with `us` open at `c`: of a phrase that is viable there, or because nothing at
-- `d` begins a node.
def StuckIn (us : List Unfinished) (c : Cursor) (cause : Cause) (d : Cursor) : Prop :=
  (∃ text, Stuck c text cause d ∧ Viable us text) ∨
    ∃ b : Blanks, c.Reads b.text d ∧ cause = .unexpected ∧ Cause.unexpected.Lacks d.rest

theorem item_stuckIn {b : Blanks} (proper : ∀ u ∈ us, u.Proper) (blanks : c.Reads b.text m)
    (h : item frames m = .error cause d) : StuckIn us c cause d := by
  obtain ⟨text, stuck, viable⟩ | ⟨rfl, rfl, lacks⟩ := item_stuck h
  case inl => exact .inl ⟨_, stuck.after blanks, viable us b proper⟩
  case inr => exact .inr ⟨b, blanks, rfl, lacks⟩

theorem tag_stuckIn {start : TagStart} {p : Nat} {tag : String}
    {attributes : Attributes (Tree Span)} (proper : ∀ u ∈ us, u.Proper)
    (reads : m.Reads start.text c)
    (ends : start.attributes = [] → ¬Leads isAlphabetic c.rest)
    (h : step (.opening p tag attributes frames) c = .error cause d) : StuckIn us m cause d := by
  simp only [step, bind_eq_error_iff, blanks_ne_error, sees_ne_error, false_or, blanks_eq_ok_iff,
    sees_eq_ok_iff] at h
  obtain ⟨_, _, ⟨b, blanks, -⟩, _, e, ⟨closes, rfl⟩, h⟩ := h
  split at h
  case isTrue sign =>
    simp only [bind_eq_error_iff, literal_eq_error_iff, pure_ne_error, and_false, exists_false,
      or_false] at h
    exact absurd (closes.mp sign) h.2.2
  case isFalse sign =>
    simp only [bind_eq_error_iff, pure_ne_error, and_false, exists_false, or_false] at h
    have other : ¬['>'] <+: e.rest := by simpa using mt closes.mpr sign
    obtain ⟨next, text, eq, stuck⟩ := attribute_stuck blanks h other ends
    exact .inl ⟨_, eq ▸ stuck.after reads, Viable.of_tagStart next proper⟩

theorem element_stuckIn {start : TagStart} {gap : Blanks} {nodes : List Derivation} {p : Nat}
    {attributes : Attributes (Tree Span)} {body : List (Tree Span)}
    (proper : ∀ u ∈ (⟨.element start gap, nodes⟩ :: outer : List Unfinished), u.Proper)
    (h : step (.content (⟨.element p start.tag.string attributes, body⟩ :: frames)) c =
      .error cause d) : StuckIn (⟨.element start gap, nodes⟩ :: outer) c cause d := by
  simp only [step, bind_eq_error_iff, blanks_ne_error, sees_ne_error, false_or, blanks_eq_ok_iff,
    sees_eq_ok_iff] at h
  obtain ⟨_, m, ⟨b, blanks, -⟩, _, _, ⟨closes, rfl⟩, h⟩ := h
  split at h
  case isTrue sign =>
    simp only [bind_eq_error_iff, literal_eq_error_iff, position_ne_error, pure_ne_error, and_false,
      exists_false, or_false] at h
    exact absurd (closes.mp sign) h.2.2
  case isFalse other =>
    simp only [bind_eq_error_iff, atEnd_ne_error, sees_ne_error, false_or, atEnd_eq_ok_iff,
      sees_eq_ok_iff] at h
    obtain ⟨_, _, ⟨atEnd, rfl⟩, _, _, ⟨closing, rfl⟩, h⟩ := h
    split at h
    case isFalse => exact item_stuckIn proper blanks h
    case isTrue ends =>
      obtain ⟨rfl, rfl⟩ := throw_eq_error_iff.mp h
      have lacks : (Cause.unclosed start.tag.string).Lacks d.rest := by
        have ends : d.rest = [] ∨ "</".toList <+: d.rest := by simpa [atEnd, closing] using ends
        exact ⟨by simpa using ends, by simpa [Cause.closing] using mt closes.mpr other⟩
      refine .inl ⟨_, ⟨b.text, _, rfl, blanks, lacks, ?_⟩, Viable.of_closingTag b proper⟩
      exact ⟨.none, _, rfl, by simp [Cause.closing]⟩

theorem loop_stuckIn {start : LoopStart} {nodes : List Derivation} {p : Nat} {binder : String}
    {collection : Tree Span} {body : List (Tree Span)}
    (proper : ∀ u ∈ (⟨.loop start, nodes⟩ :: outer : List Unfinished), u.Proper)
    (h : step (.content (⟨.loop p binder collection, body⟩ :: frames)) c = .error cause d) :
    StuckIn (⟨.loop start, nodes⟩ :: outer) c cause d := by
  simp only [step, bind_eq_error_iff, blanks_ne_error, atEnd_ne_error, false_or, blanks_eq_ok_iff,
    atEnd_eq_ok_iff] at h
  obtain ⟨_, m, ⟨b, blanks, -⟩, _, _, ⟨atEnd, rfl⟩, h⟩ := h
  split at h
  case isFalse => exact item_stuckIn proper blanks h
  case isTrue last =>
    obtain ⟨rfl, rfl⟩ := throw_eq_error_iff.mp h
    have viable := Viable.of_end b Gap.space.toBlanks Gap.space.toBlanks proper
    refine .inl ⟨_, ⟨b.text, _, rfl, blanks, .inr ⟨rfl, atEnd.mp last⟩, ?_⟩, viable⟩
    exact ⟨.none, _, rfl, by simp [Name.end_]⟩

theorem Stage.Reached.stuck {stage : Stage} (reached : stage.Reached source c)
    (h : State.step (stage.state source.position) c = .error cause d) :
    ∃ us m, (∀ u ∈ us, u.Proper) ∧ source.Reads (written us) m ∧ StuckIn us m cause d := by
  cases reached with
  | @tag start us _ reads proper ends =>
    have ⟨m, outer, front⟩ := Cursor.Reads.append_iff.mp reads
    exact ⟨us, m, proper, outer, tag_stuckIn proper front ends h⟩
  | @body us _ reads proper =>
    refine ⟨us, c, proper, reads, ?_⟩
    match us with
    | [] =>
      obtain h | ⟨_, _, blanks, h⟩ := bind_eq_error_iff.mp h
      case inl => exact absurd h blanks_ne_error
      obtain ⟨b, blanks, -⟩ := blanks_eq_ok_iff.mp blanks
      exact item_stuckIn proper blanks h
    | ⟨.element .., _⟩ :: _ => exact element_stuckIn proper h
    | ⟨.loop .., _⟩ :: _    => exact loop_stuckIn proper h

theorem completable_of_text {n : Derivation} {before w : List Char} {p : List Char → Prop}
    (proper : n.Proper) (text : n.text = before ++ w) (hw : p w) : Completable before p :=
  ⟨w, hw, n.tree 0, Tree.parse_eq_ok_iff.mpr ⟨n, .none, proper, by simp [text], rfl⟩⟩

-- A node may begin in front of the closing of whatever is open.
theorem truthful_of_unexpected {b : Blanks} (proper : ∀ u ∈ us, u.Proper)
    (lacks : Cause.unexpected.Lacks cs) :
    Cause.unexpected.Truthful (written us ++ b.text) cs := by
  have ⟨n, tail, n_proper, text⟩ := Viable.of_tagStart (.bare b .in_) proper
  have ⟨n', tail', n'_proper, text'⟩ :=
    Viable.of_braced (x := ⟨.none, .in_, .none⟩) b Name.string_in_ne_for proper
  refine .inr ⟨lacks, ?_, ?_⟩
  · exact completable_of_text (w := ['<'] ++ Name.in_.text ++ tail) n_proper
      (by simpa [TagStart.text, TagStart.bare] using text) (by simp)
  · exact completable_of_text (w := ['{'] ++ Name.in_.text ++ ['}'] ++ tail') n'_proper
      (by simpa [Braced.text] using text') (by simp)

theorem truthful_of_stuckIn (proper : ∀ u ∈ us, u.Proper)
    (reads : source.Reads (written us) c) (h : StuckIn us c cause d) :
    ∃ before, source.Reads before d ∧ cause.Truthful before d.rest := by
  obtain ⟨text, ⟨front, w, rfl, reads', lacks, supplies⟩, n, tail, n_proper, text⟩ |
    ⟨b, blanks, rfl, lacks⟩ := h
  case inl =>
    refine ⟨written us ++ front, reads.trans reads', ?_⟩
    have completable : Completable (written us ++ front) cause.Supplies :=
      completable_of_text (w := w ++ tail) n_proper (by simpa using text) supplies.append
    cases cause with
    | unexpected => exact supplies.elim
    | _          => exact ⟨lacks, completable⟩
  case inr => exact ⟨_, reads.trans blanks, truthful_of_unexpected proper lacks⟩

theorem Scan.truthful_of_template_eq_error (h : template c = .error cause d) :
    ∃ before, c.Reads before d ∧ cause.Truthful before d.rest := by
  obtain ⟨stage, m, reached, h⟩ | ⟨n, after, rfl, proper, reads, ne⟩ := template_eq_error h
  case inl =>
    have ⟨us, m, proper, reads, stuck⟩ := reached.stuck h
    exact truthful_of_stuckIn proper reads stuck
  case inr =>
    refine ⟨_, reads, .inl ⟨ne, [], rfl, n.tree 0, ?_⟩⟩
    exact Tree.parse_eq_ok_iff.mpr ⟨n, after, proper, by simp, rfl⟩

-- The position of an error is a place between two characters of its source, and what its cause
-- says about that place is true.
theorem Tree.truthful_of_parse_eq_error {source : String} {e : SyntaxError}
    (h : parse source = .error e) :
    e.position ≤ source.utf8ByteSize ∧ (⟨e.position⟩ : String.Pos.Raw).IsValid source ∧
      ∃ before after : String, source = before ++ after ∧ before.utf8ByteSize = e.position ∧
        e.cause.Truthful before.toList after.toList := by
  have ⟨d, here, failed⟩ := parse_eq_error h
  have ⟨before, reads, truthful⟩ := truthful_of_template_eq_error failed
  have ⟨text, length⟩ := Cursor.start_reads_iff.mp reads
  have split : source = .ofList before ++ .ofList d.rest := by
    rw [← String.ofList_append, ← text, String.ofList_toList]
  have size : (String.ofList before).utf8ByteSize = e.position := by
    rw [here, length, ← Bytes.length_toList, String.toList_ofList]
  refine ⟨?_, ?_, .ofList before, .ofList d.rest, split, size, by simpa using truthful⟩
  · rw [split, String.utf8ByteSize_append]
    omega
  · refine String.Pos.Raw.isValid_iff_exists_append.mpr ⟨_, _, split, ?_⟩
    simp [← size, String.rawEndPos]

theorem Tree.truthful_of_missing_in :
    parse "<a>\x7bfor x\x7d" = .error ⟨.missing "in", 9⟩ ∧
      ∃ before after : String, "<a>\x7bfor x\x7d" = before ++ after ∧ before.utf8ByteSize = 9 ∧
        (Cause.missing "in").Truthful before.toList after.toList :=
  have failed : parse "<a>\x7bfor x\x7d" = .error ⟨.missing "in", 9⟩ := by decide +kernel
  ⟨failed, (truthful_of_parse_eq_error failed).2.2⟩

end MarkupTemplate
