import MarkupTemplate.Parser.Basic
import MarkupTemplate.Proofs.Grammar.Phrase

/-!
What a single step reads and where it leads: one statement for each kind of state. A step from
inside a body either closes the element there or reads the start of a node, which is a tag, a
name in braces, or the start of a loop.
-/

namespace MarkupTemplate

-- The innermost construct takes a bare `end` as its own.
def Frame.IsLoop (f : Frame) : Prop :=
  ∃ start binder collection, f.opened = .loop start binder collection

namespace State

open Scan

variable {c d : Cursor} {frames outer : List Frame} {q : Progress}

theorem completeVariable_eq {x : String} {span : Span}
    (h : ∀ f ∈ frames.head?, f.IsLoop → x ≠ "end") :
    completeVariable x span frames = complete ⟨span, .var x⟩ frames := by
  match frames with
  | [] | ⟨.element .., _⟩ :: _ => rfl
  | ⟨.loop .., _⟩ :: _         => exact if_neg (h _ rfl ⟨_, _, _, rfl⟩)

theorem completeVariable_end {n : Name} {span : Span} {start : Nat} {binder : String}
    {collection : Tree Span} {body : List (Tree Span)} (h : n = .end_) :
    completeVariable n.string span (⟨.loop start binder collection, body⟩ :: outer) =
      complete (Frame.close ⟨.loop start binder collection, body⟩ span.stop) outer :=
  if_pos (h ▸ rfl)

theorem startTag_eq_ok_iff : startTag frames c = .ok q d ↔
    ∃ tag : Name, c.Reads (['<'] ++ tag.text) d ∧ ¬Leads isAlphabetic d.rest ∧
      q = .reading (.opening c.position tag.string [] frames) where
  mp h := by
    simp only [startTag, bind_eq_ok_iff, literal_eq_ok_iff, name_eq_ok_iff, pure_eq_ok_iff] at h
    obtain ⟨_, _, h, _, _, sign, _, _, ⟨tag, word, ends, rfl⟩, rfl, rfl⟩ := h
    cases h
    exact ⟨tag, sign.trans word, ends, rfl⟩
  mpr := by
    rintro ⟨tag, reads, ends, rfl⟩
    obtain ⟨_, sign, word⟩ := Cursor.Reads.append_iff.mp reads
    have here : position c = .ok c.position c := rfl
    rw [startTag, bind_eq_of_ok here, bind_eq_of_ok (literal_of_reads sign),
      bind_eq_of_ok (name_of_reads word ends)]
    rfl

-- The start of a loop, without the blanks before it.
def loopFrame (left : Blanks) (header : LoopHeader) (p : Nat) : Frame :=
  let start := p + Bytes.length (['{'] ++ left.text)
  let collection := header.collectionAt (start + Bytes.length ['f', 'o', 'r'])
  ⟨.loop start header.binder.string collection, []⟩

theorem braces_eq_ok_iff : braces frames c = .ok q d ↔
    (∃ b : Braced, b.name.string ≠ "for" ∧ c.Reads b.text d ∧
      q = completeVariable b.name.string (b.variable c.position).site frames) ∨
    ∃ (left : Blanks) (header : LoopHeader),
      c.Reads (['{'] ++ left.text ++ ['f', 'o', 'r'] ++ header.text) d ∧
        q = .reading (.content (loopFrame left header c.position :: frames)) where
  mp h := by
    simp only [braces, bind_eq_ok_iff, literal_eq_ok_iff, name_eq_ok_iff, blanks_eq_ok_iff] at h
    obtain ⟨_, _, opened, _, _, ⟨left, hl, -⟩, _, _, ⟨x, hx, ends, rfl⟩, h⟩ := h
    have front := opened.trans hl
    split at h
    case isTrue eq =>
      cases Name.string_eq_for_iff.mp eq
      simp only [bind_eq_ok_iff, loopHeader_eq_ok_iff ends, pure_eq_ok_iff] at h
      obtain ⟨_, _, ⟨header, hh, rfl⟩, rfl, rfl⟩ := h
      refine .inr ⟨left, header, (front.trans hx).trans hh, ?_⟩
      rw [hx.position, front.position]
      rfl
    case isFalse ne =>
      simp only [bind_eq_ok_iff, blanks_eq_ok_iff, literal_eq_ok_iff, pure_eq_ok_iff] at h
      obtain ⟨_, _, ⟨right, hr, -⟩, _, _, closed, rfl, rfl⟩ := h
      refine .inl ⟨⟨left, x, right⟩, ne, ((front.trans hx).trans hr).trans closed, ?_⟩
      rw [hx.position, front.position]
      rfl
  mpr := by
    rintro (⟨⟨left, x, right⟩, ne, reads, rfl⟩ | ⟨left, header, reads, rfl⟩)
    case inl =>
      simp only [Braced.text, Cursor.Reads.append_iff] at reads
      obtain ⟨_, ⟨_, ⟨_, ⟨_, opened, hl⟩, hx⟩, hr⟩, closed⟩ := reads
      have ends := hr.blanks_not_isAlphabetic (closed.sign_not_isAlphabetic (by decide))
      rw [braces, bind_eq_of_ok (literal_of_reads opened),
        bind_eq_of_ok (blanks_of_reads hl hx.name_not_isBlank),
        bind_eq_of_ok (name_of_reads hx ends)]
      simp only [if_neg ne]
      rw [bind_eq_of_ok (blanks_of_reads hr (closed.sign_not_isBlank (by decide))),
        bind_eq_of_ok (literal_of_reads closed), pure_eq_ok_iff, hx.position,
        (opened.trans hl).position]
      exact ⟨rfl, rfl⟩
    case inr =>
      simp only [Cursor.Reads.append_iff] at reads
      obtain ⟨m, ⟨_, ⟨_, opened, hl⟩, word⟩, hh⟩ := reads
      have hx : Cursor.Reads _ Name.for_.text m := word
      have ends : ¬Leads isAlphabetic m.rest := by
        rw [hh.rest, LoopHeader.text]
        simpa using header.afterFor.not_leads_isAlphabetic _
      rw [braces, bind_eq_of_ok (literal_of_reads opened),
        bind_eq_of_ok (blanks_of_reads hl hx.name_not_isBlank),
        bind_eq_of_ok (name_of_reads hx ends)]
      simp only [if_pos (Name.string_eq_for_iff.mpr rfl)]
      rw [bind_eq_of_ok ((loopHeader_eq_ok_iff ends).mpr ⟨header, hh, rfl⟩), pure_eq_ok_iff,
        hx.position, (opened.trans hl).position]
      exact ⟨rfl, rfl⟩

theorem startTag_reads_sign (h : startTag frames c = .ok q d) :
    ∃ m, c.Reads ['<'] m ∧ Leads isAlphabetic m.rest := by
  obtain ⟨tag, reads, -, -⟩ := startTag_eq_ok_iff.mp h
  have ⟨m, sign, word⟩ := Cursor.Reads.append_iff.mp reads
  exact ⟨m, sign, word.name_isAlphabetic⟩

theorem braces_reads_sign (h : braces frames c = .ok q d) : ∃ m, c.Reads ['{'] m := by
  obtain ⟨b, -, reads, -⟩ | ⟨left, header, reads, -⟩ := braces_eq_ok_iff.mp h
  all_goals
    simp only [Braced.text, List.append_assoc] at reads
    obtain ⟨m, sign, _⟩ := Cursor.Reads.append_iff.mp reads
    exact ⟨m, sign⟩

-- Each of the two fails at once where the other one begins.
theorem item_eq_ok_iff : item frames c = .ok q d ↔
    startTag frames c = .ok q d ∨ braces frames c = .ok q d where
  mp h := by
    simp only [item, bind_eq_ok_iff, sees_eq_ok_iff] at h
    obtain ⟨_, _, ⟨-, rfl⟩, h⟩ := h
    split at h
    case isTrue  => exact .inl h
    case isFalse =>
      simp only [bind_eq_ok_iff, sees_eq_ok_iff] at h
      obtain ⟨_, _, ⟨-, rfl⟩, h⟩ := h
      split at h
      case isTrue  => exact .inr h
      case isFalse => exact absurd h throw_ne_ok
  mpr := by
    rintro (h | h)
    case inl =>
      have ⟨_, sign, _⟩ := startTag_reads_sign h
      rw [item, bind_eq_of_ok (sees_of_reads sign)]
      simpa using h
    case inr =>
      have ⟨_, sign⟩ := braces_reads_sign h
      have ne : ¬"<".toList <+: c.rest := by simp [sign.rest]
      rw [item, bind_eq_of_ok (sees_of_not ne)]
      simp only [Bool.false_eq_true, ↓reduceIte]
      rw [bind_eq_of_ok (sees_of_reads sign)]
      simpa using h

theorem item_begins (h : item frames c = .ok q d) :
    ¬Leads isBlank c.rest ∧ c.rest ≠ [] ∧ ¬"</".toList <+: c.rest := by
  obtain h | h := item_eq_ok_iff.mp h
  case inl =>
    have ⟨m, sign, letter⟩ := startTag_reads_sign h
    have ⟨x, _, eq, hx⟩ := letter.exists_cons
    refine ⟨sign.sign_not_isBlank (by decide), by simp [sign.rest], ?_⟩
    have := not_isAlphabetic_of_mem_signs '/' (by decide)
    simp [sign.rest, eq]
    grind
  case inr =>
    have ⟨m, sign⟩ := braces_reads_sign h
    exact ⟨sign.sign_not_isBlank (by decide), by simp [sign.rest], by simp [sign.rest]⟩

theorem step_root_eq_ok_iff : step (.content []) c = .ok q d ↔
    ∃ (b : Blanks) (m : Cursor), c.Reads b.text m ∧ item [] m = .ok q d where
  mp h := by
    simp only [step, bind_eq_ok_iff, blanks_eq_ok_iff] at h
    obtain ⟨_, m, ⟨b, reads, -⟩, h⟩ := h
    exact ⟨b, m, reads, h⟩
  mpr := by
    rintro ⟨b, m, reads, h⟩
    rw [step, bind_eq_of_ok (blanks_of_reads reads (item_begins h).1), h]

theorem step_loop_eq_ok_iff {start : Nat} {binder : String} {collection : Tree Span}
    {body : List (Tree Span)} :
    step (.content (⟨.loop start binder collection, body⟩ :: outer)) c = .ok q d ↔
      ∃ (b : Blanks) (m : Cursor), c.Reads b.text m ∧
        item (⟨.loop start binder collection, body⟩ :: outer) m = .ok q d where
  mp h := by
    simp only [step, bind_eq_ok_iff, blanks_eq_ok_iff, atEnd_eq_ok_iff] at h
    obtain ⟨_, m, ⟨b, reads, -⟩, _, _, ⟨-, rfl⟩, h⟩ := h
    split at h
    case isTrue  => exact absurd h throw_ne_ok
    case isFalse => exact ⟨b, _, reads, h⟩
  mpr := by
    rintro ⟨b, m, reads, h⟩
    have ⟨ends, ne, _⟩ := item_begins h
    rw [step, bind_eq_of_ok (blanks_of_reads reads ends), bind_eq_of_ok (atEnd_of_ne_nil ne)]
    simpa using h

theorem step_element_eq_ok_iff {start : Nat} {tag : String} {attributes : Attributes (Tree Span)}
    {body : List (Tree Span)} :
    step (.content (⟨.element start tag attributes, body⟩ :: outer)) c = .ok q d ↔
      (∃ (b : Blanks) (m : Cursor), c.Reads b.text m ∧
        item (⟨.element start tag attributes, body⟩ :: outer) m = .ok q d) ∨
      ∃ b : Blanks, c.Reads (b.text ++ (['<', '/'] ++ tag.toList ++ ['>'])) d ∧
        q = complete (Frame.close ⟨.element start tag attributes, body⟩ d.position) outer where
  mp h := by
    simp only [step, bind_eq_ok_iff, blanks_eq_ok_iff, sees_eq_ok_iff] at h
    obtain ⟨_, m, ⟨b, reads, -⟩, _, _, ⟨-, rfl⟩, h⟩ := h
    split at h
    case isTrue  =>
      simp only [bind_eq_ok_iff, literal_eq_ok_iff, pure_eq_ok_iff] at h
      obtain ⟨_, _, closing, _, _, here, rfl, rfl⟩ := h
      cases here
      exact .inr ⟨b, by simpa using reads.trans closing, rfl⟩
    case isFalse =>
      simp only [bind_eq_ok_iff, atEnd_eq_ok_iff, sees_eq_ok_iff] at h
      obtain ⟨_, _, ⟨-, rfl⟩, _, _, ⟨-, rfl⟩, h⟩ := h
      split at h
      case isTrue  => exact absurd h throw_ne_ok
      case isFalse => exact .inl ⟨b, _, reads, h⟩
  mpr := by
    rintro (⟨b, m, reads, h⟩ | ⟨b, reads, rfl⟩)
    case inl =>
      have ⟨ends, ne, other⟩ := item_begins h
      have other' : ¬("</" ++ tag ++ ">").toList <+: m.rest := by
        refine fun closing => other (.trans ?_ closing)
        simp
      rw [step, bind_eq_of_ok (blanks_of_reads reads ends), bind_eq_of_ok (sees_of_not other')]
      simp only [Bool.false_eq_true, ↓reduceIte]
      rw [bind_eq_of_ok (atEnd_of_ne_nil ne), bind_eq_of_ok (sees_of_not other)]
      simpa using h
    case inr =>
      obtain ⟨m, hb, closing⟩ := Cursor.Reads.append_iff.mp reads
      have ends : ¬Leads isBlank m.rest := by
        simp [closing.rest, not_isBlank_of_mem_signs '<' (by decide)]
      have reads : m.Reads ("</" ++ tag ++ ">").toList d := by simpa using closing
      have here : position d = .ok d.position d := rfl
      rw [step, bind_eq_of_ok (blanks_of_reads hb ends), bind_eq_of_ok (sees_of_reads reads)]
      simp only [↓reduceIte]
      rw [bind_eq_of_ok (literal_of_reads reads), bind_eq_of_ok here]
      rfl

theorem assignment_begins {a : Assignment} (h : c.Reads a.text d) :
    Leads isAlphabetic c.rest ∧ ¬Leads isBlank c.rest ∧ ¬">".toList <+: c.rest := by
  simp only [Assignment.text, List.append_assoc] at h
  obtain ⟨m, reads, _⟩ := Cursor.Reads.append_iff.mp h
  refine ⟨reads.name_isAlphabetic, reads.name_not_isBlank, fun other => ?_⟩
  obtain ⟨rest, eq⟩ := other
  have letter := reads.name_isAlphabetic
  simp [← eq, not_isAlphabetic_of_mem_signs '>' (by decide)] at letter

theorem step_opening_eq_ok_iff {start : Nat} {tag : String} {attributes : Attributes (Tree Span)} :
    step (.opening start tag attributes outer) c = .ok q d ↔
      (∃ b : Blanks, c.Reads (b.text ++ ['>']) d ∧
        q = .reading (.content (⟨.element start tag attributes, []⟩ :: outer))) ∨
      ∃ (b : Blanks) (a : Assignment), c.Reads (b.text ++ a.text) d ∧
        q = .reading (.opening start tag (attributes.insert a.name.string
          (a.entry (c.position + Bytes.length b.text)).2) outer) where
  mp h := by
    simp only [step, bind_eq_ok_iff, blanks_eq_ok_iff, sees_eq_ok_iff] at h
    obtain ⟨_, m, ⟨b, reads, -⟩, _, _, ⟨-, rfl⟩, h⟩ := h
    split at h
    case isTrue  =>
      simp only [bind_eq_ok_iff, literal_eq_ok_iff, pure_eq_ok_iff] at h
      obtain ⟨_, _, sign, rfl, rfl⟩ := h
      exact .inl ⟨b, reads.trans sign, rfl⟩
    case isFalse =>
      simp only [bind_eq_ok_iff, assignment_eq_ok_iff, pure_eq_ok_iff] at h
      obtain ⟨_, _, ⟨a, ha, rfl⟩, rfl, rfl⟩ := h
      exact .inr ⟨b, a, reads.trans ha, by rw [reads.position]; rfl⟩
  mpr := by
    rintro (⟨b, reads, rfl⟩ | ⟨b, a, reads, rfl⟩)
    case inl =>
      obtain ⟨m, hb, sign⟩ := Cursor.Reads.append_iff.mp reads
      rw [step, bind_eq_of_ok (blanks_of_reads hb (sign.sign_not_isBlank (by decide))),
        bind_eq_of_ok (sees_of_reads sign)]
      simp only [↓reduceIte]
      rw [bind_eq_of_ok (literal_of_reads sign)]
      rfl
    case inr =>
      obtain ⟨m, hb, ha⟩ := Cursor.Reads.append_iff.mp reads
      have ⟨_, ends, other⟩ := assignment_begins ha
      rw [step, bind_eq_of_ok (blanks_of_reads hb ends), bind_eq_of_ok (sees_of_not other)]
      simp only [Bool.false_eq_true, ↓reduceIte]
      rw [bind_eq_of_ok (assignment_eq_ok_iff.mpr ⟨a, ha, rfl⟩), hb.position]
      rfl

end State
end MarkupTemplate
