import MarkupTemplate.Proofs.Failure.Basic
import MarkupTemplate.Proofs.Grammar.Completeness

/-!
Reading on when more text follows. `p.Stable` says that a scan which stops in front of some text
does the same whatever is written behind that text, unless it stops at the front of a literal that
the text ends in. All scans of the parser are stable, and so is a whole run.
-/

namespace MarkupTemplate

open SyntaxError

namespace SyntaxError.Cause

-- The text ends within the literal that is missing. All other literals are single signs, or are
-- missing only where nothing is left.
def BreaksOff : Cause → List Char → Prop
  | missing literal, cs => literal = "in" ∧ cs = ['i']
  | unclosed tag, cs    => cs <+: closing tag ∧ cs ≠ closing tag
  | _, _                => False

end SyntaxError.Cause

namespace Cursor

-- The cursor in a source that goes on with `w`.
def extend (c : Cursor) (w : List Char) : Cursor where
  position := c.position
  rest     := c.rest ++ w

variable {c d : Cursor} {cs : List Char}

theorem Reads.extend (h : c.Reads cs d) (w : List Char) : (c.extend w).Reads cs (d.extend w) where
  rest     := by simp [Cursor.extend, h.rest]
  position := h.position

theorem start_append (s w : String) : start (s ++ w) = (start s).extend w.toList := by
  simp [start, extend]

theorem Reads.rest_ne_nil (h : c.Reads cs d) (ne : d.rest ≠ []) : c.rest ≠ [] := by
  simp [h.rest, ne]

end Cursor

theorem Leads.append_iff {p : Char → Bool} {cs : List Char} (ne : cs ≠ []) (ds : List Char) :
    Leads p (cs ++ ds) ↔ Leads p cs := by
  cases cs
  case nil  => contradiction
  case cons => simp

-- Text behind `cs` can complete a literal only if `cs` is the front of it.
theorem prefix_of_prefix_append {ls cs ds : List Char} (h : ls <+: cs ++ ds) (other : ¬ls <+: cs) :
    cs <+: ls ∧ cs ≠ ls := by
  cases List.prefix_or_prefix_of_prefix h (List.prefix_append cs ds)
  case inl h => contradiction
  case inr h => exact ⟨h, fun eq => other (eq ▸ List.prefix_rfl)⟩

theorem eq_of_prefix_pair {x y : Char} {cs : List Char} (front : cs <+: [x, y]) (ne : cs ≠ [])
    (proper : cs ≠ [x, y]) : cs = [x] := by
  match cs with
  | [_]         => simpa using front
  | _ :: _ :: _ => simp_all

theorem sign_prefix_append_iff {x : Char} {cs : List Char} (ne : cs ≠ []) (ds : List Char) :
    [x] <+: cs ++ ds ↔ [x] <+: cs := by
  cases cs
  case nil  => contradiction
  case cons => simp

namespace Scan

variable {α β : Type}

structure Stable (p : Scan α) : Prop where
  consumes : p.Consumes 0
  ok       : ∀ {c a d}, p c = .ok a d → d.rest ≠ [] → ∀ w, p (c.extend w) = .ok a (d.extend w)
  error    : ∀ {c e d}, p c = .error e d → d.rest ≠ [] → ¬e.BreaksOff d.rest →
    ∀ w, p (c.extend w) = .error e (d.extend w)

namespace Stable

variable {p : Scan α} {f : α → Scan β}

theorem pure (a : α) : Stable (Pure.pure a) where
  consumes := .pure a
  ok h _ _ := by cases h; rfl
  error h  := absurd h pure_ne_error

theorem throw (e : Cause) : Stable (MonadExcept.throw e : Scan α) where
  consumes      := .throw e
  ok h          := absurd h throw_ne_ok
  error h _ _ _ := by cases h; rfl

theorem bind (hp : p.Stable) (hf : ∀ a, (f a).Stable) : Stable (p >>= f) where
  consumes := hp.consumes.bind fun a => (hf a).consumes
  ok := by
    intro c b e h ne w
    have ⟨a, d, first, second⟩ := bind_eq_ok_iff.mp h
    have ⟨_, reads, _⟩ := (hf a).consumes.ok second
    rw [bind_eq_of_ok (hp.ok first (reads.rest_ne_nil ne) w)]
    exact (hf a).ok second ne w
  error := by
    intro c cause e h ne whole w
    cases bind_eq_error_iff.mp h
    case inl h => exact bind_eq_error_iff.mpr (.inl (hp.error h ne whole w))
    case inr h =>
      have ⟨a, d, first, second⟩ := h
      have ⟨_, reads⟩ := (hf a).consumes.error second
      rw [bind_eq_of_ok (hp.ok first (reads.rest_ne_nil ne) w)]
      exact (hf a).error second ne whole w

theorem ite {q : Scan α} {P : Prop} [Decidable P] (hp : p.Stable) (hq : q.Stable) :
    Stable (if P then p else q) := by
  split
  · exact hp
  · exact hq

end Stable

theorem position_stable : position.Stable where
  consumes := position_consumes
  ok h _ _ := by cases h; rfl
  error h  := absurd h position_ne_error

theorem atEnd_stable : atEnd.Stable where
  consumes := atEnd_consumes
  ok := by
    intro c b d h ne w
    have ⟨last, here⟩ := atEnd_eq_ok_iff.mp h
    cases here
    exact atEnd_eq_ok_iff.mpr ⟨by simp [last, Cursor.extend, ne], rfl⟩
  error h := absurd h atEnd_ne_error

theorem blanks_stable : blanks.Stable where
  consumes := blanks_consumes
  ok := by
    intro c u d h ne w
    have ⟨b, reads, ends⟩ := blanks_eq_ok_iff.mp h
    exact blanks_of_reads (reads.extend w) (mt (Leads.append_iff ne w).mp ends)
  error h := absurd h blanks_ne_error

theorem name_stable (k : NameClass) : (name k).Stable where
  consumes := (name_consumes k).weaken (Nat.zero_le _)
  ok := by
    intro c r d h ne w
    have ⟨n, reads, ends, eq⟩ := name_eq_ok_iff.mp h
    exact name_eq_ok_iff.mpr ⟨n, reads.extend w, mt (Leads.append_iff ne w).mp ends, eq⟩
  error := by
    intro c cause d h ne _ w
    have ⟨eq, here, other⟩ := name_eq_error_iff.mp h
    cases here
    exact name_eq_error_iff.mpr ⟨eq, rfl, mt (Leads.append_iff ne w).mp other⟩

theorem sees_stable {s : String} {x : Char} (sign : s.toList = [x]) : (sees s).Stable where
  consumes := sees_consumes s
  ok := by
    intro c b d h ne w
    have ⟨begins, here⟩ := sees_eq_ok_iff.mp h
    cases here
    rw [sign] at begins
    exact sees_eq_ok_iff.mpr ⟨begins.trans (sign ▸ (sign_prefix_append_iff ne w).symm), rfl⟩
  error h := absurd h sees_ne_error

theorem literal_stable {s : String}
    (h : ∀ cs, cs ≠ [] → cs <+: s.toList → cs ≠ s.toList → (Cause.missing s).BreaksOff cs) :
    (literal s).Stable where
  consumes := (literal_consumes s).weaken (Nat.zero_le _)
  ok := by
    intro c u d h ne w
    exact literal_of_reads ((literal_eq_ok_iff.mp h).extend w)
  error := by
    intro c cause d failed ne whole w
    have ⟨eq, here, other⟩ := literal_eq_error_iff.mp failed
    cases here
    refine literal_eq_error_iff.mpr ⟨eq, rfl, fun begins => whole ?_⟩
    have ⟨front, proper⟩ := prefix_of_prefix_append begins other
    exact eq ▸ h _ ne front proper

theorem sign_stable {s : String} {x : Char} (sign : s.toList = [x]) : (literal s).Stable := by
  apply literal_stable
  intro cs ne front proper
  rw [sign] at front proper
  cases List.prefix_cons_iff.mp front
  case inl eq => contradiction
  case inr h =>
    have ⟨ds, eq, front⟩ := h
    rw [List.prefix_nil.mp front] at eq
    contradiction

theorem word_stable : (literal "in").Stable := by
  apply literal_stable
  intro cs ne front proper
  exact ⟨rfl, eq_of_prefix_pair front ne proper⟩

theorem reference_stable : reference.Stable :=
  (name_stable _).bind fun _ => .pure _

theorem assignment_stable : assignment.Stable :=
  (name_stable _).bind fun _ => blanks_stable.bind fun _ =>
  (sign_stable (x := '=') rfl).bind fun _ => blanks_stable.bind fun _ =>
  (sign_stable (x := '{') rfl).bind fun _ => blanks_stable.bind fun _ =>
  reference_stable.bind fun _ => blanks_stable.bind fun _ =>
  (sign_stable (x := '}') rfl).bind fun _ => .pure _

theorem loopHeader_stable : loopHeader.Stable :=
  blanks_stable.bind fun _ => (name_stable _).bind fun _ => blanks_stable.bind fun _ =>
  word_stable.bind fun _ => blanks_stable.bind fun _ =>
  reference_stable.bind fun _ => blanks_stable.bind fun _ =>
  (sign_stable (x := '}') rfl).bind fun _ => .pure _

end Scan

namespace State

open Scan

variable {c d m : Cursor} {frames outer : List Frame} {cause : Cause}

theorem startTag_stable (frames : List Frame) : (startTag frames).Stable :=
  position_stable.bind fun _ => (sign_stable (x := '<') rfl).bind fun _ =>
  (name_stable _).bind fun _ => .pure _

theorem braces_stable (frames : List Frame) : (braces frames).Stable :=
  (sign_stable (x := '{') rfl).bind fun _ => blanks_stable.bind fun _ =>
  (name_stable _).bind fun _ => .ite
    (loopHeader_stable.bind fun _ => .pure _)
    (blanks_stable.bind fun _ => (sign_stable (x := '}') rfl).bind fun _ => .pure _)

theorem item_stable (frames : List Frame) : (item frames).Stable :=
  (sees_stable (x := '<') rfl).bind fun _ => .ite (startTag_stable _) <|
  (sees_stable (x := '{') rfl).bind fun _ => .ite (braces_stable _) (.throw _)

-- A sign that is the last character begins a tag without a name.
theorem item_sign (frames : List Frame) (p : Nat) :
    item frames ⟨p, ['<']⟩ = .error (.unnamed .tagName) ⟨p + 1, []⟩ :=
  rfl

section Element

variable {start : Nat} {tag : String} {attributes : Attributes (Tree Span)}
  {body : List (Tree Span)} {b : Blanks}

theorem step_element_of_reads (blanks : c.Reads b.text m) (ends : ¬Leads isBlank m.rest)
    (other : ¬Cause.closing tag <+: m.rest) :
    step (.content (⟨.element start tag attributes, body⟩ :: outer)) c =
      if m.rest = [] ∨ ['<', '/'] <+: m.rest then .error (.unclosed tag) m
      else item (⟨.element start tag attributes, body⟩ :: outer) m := by
  have other : ¬("</" ++ tag ++ ">").toList <+: m.rest := by simpa [Cause.closing] using other
  have atEnd : atEnd m = .ok m.rest.isEmpty m := rfl
  have sees : sees "</" m = .ok (m.past? "</").isSome m := rfl
  have last : (m.rest.isEmpty || (m.past? "</").isSome) = true ↔
      m.rest = [] ∨ ['<', '/'] <+: m.rest := by
    simp [Cursor.isSome_past?_iff]
  rw [step, bind_eq_of_ok (blanks_of_reads blanks ends), bind_eq_of_ok (sees_of_not other)]
  simp only [Bool.false_eq_true, ↓reduceIte]
  rw [bind_eq_of_ok atEnd, bind_eq_of_ok sees]
  simp only [last]
  split <;> rfl

theorem step_element_eq_error
    (h : step (.content (⟨.element start tag attributes, body⟩ :: outer)) c = .error cause d) :
    ∃ (b : Blanks) (m : Cursor), c.Reads b.text m ∧ ¬Leads isBlank m.rest ∧
      ¬Cause.closing tag <+: m.rest := by
  simp only [step, bind_eq_error_iff, blanks_ne_error, sees_ne_error, false_or, blanks_eq_ok_iff,
    sees_eq_ok_iff] at h
  obtain ⟨_, m, ⟨b, blanks, ends⟩, _, _, ⟨sees, here⟩, h⟩ := h
  cases here
  refine ⟨b, m, blanks, ends, fun closes => ?_⟩
  have closes : ("</" ++ tag ++ ">").toList <+: m.rest := by simpa [Cause.closing] using closes
  simp only [sees.mpr closes, ↓reduceIte, bind_eq_error_iff, literal_eq_error_iff,
    position_ne_error, pure_ne_error, and_false, exists_false, or_false] at h
  exact h.2.2 closes

-- What is written behind a single `<` decides how that goes on, but an item fails behind it then.
theorem not_prefix_append_of_item (h : item frames m = .error cause d) (ne : d.rest ≠ [])
    (m_ne : m.rest ≠ []) (other : ¬['<', '/'] <+: m.rest) (w : List Char) :
    ¬['<', '/'] <+: m.rest ++ w := by
  intro begins
  have ⟨front, proper⟩ := prefix_of_prefix_append begins other
  have eq := eq_of_prefix_pair front m_ne proper
  have failed : item frames m = .error (.unnamed .tagName) ⟨m.position + 1, []⟩ := by
    rw [← item_sign frames m.position, ← eq]
  cases h.symm.trans failed
  contradiction

theorem step_element_stable :
    (step (.content (⟨.element start tag attributes, body⟩ :: outer))).Stable where
  consumes := (step_consumes _).weaken (Nat.zero_le _)
  ok := by
    intro c q d h ne w
    apply step_element_eq_ok_iff.mpr
    cases step_element_eq_ok_iff.mp h
    case inl h =>
      have ⟨b, m, blanks, h⟩ := h
      exact .inl ⟨b, m.extend w, blanks.extend w, (item_stable _).ok h ne w⟩
    case inr h =>
      have ⟨b, reads, eq⟩ := h
      exact .inr ⟨b, reads.extend w, eq⟩
  error := by
    intro c cause d h ne whole w
    have ⟨b, m, blanks, ends, other⟩ := step_element_eq_error h
    rw [step_element_of_reads blanks ends other] at h
    split at h
    case isTrue last =>
      cases h
      have closing : ['<', '/'] <+: d.rest := last.resolve_left ne
      have other' : ¬Cause.closing tag <+: d.rest ++ w :=
        fun closes => whole (prefix_of_prefix_append closes other)
      rw [step_element_of_reads (blanks.extend w) (mt (Leads.append_iff ne w).mp ends) other',
        if_pos (.inr (closing.trans (List.prefix_append _ _)))]
    case isFalse more =>
      have ⟨m_ne, bare⟩ := not_or.mp more
      have bare' := not_prefix_append_of_item h ne m_ne bare w
      have other' : ¬Cause.closing tag <+: m.rest ++ w :=
        fun closes => bare' (.trans (by simp [Cause.closing]) closes)
      rw [step_element_of_reads (blanks.extend w) (mt (Leads.append_iff m_ne w).mp ends) other',
        if_neg (by simp [Cursor.extend, m_ne, bare'])]
      exact (item_stable _).error h ne whole w

end Element

theorem step_stable (s : State) : (step s).Stable := by
  cases s
  case opening =>
    exact blanks_stable.bind fun _ => (sees_stable (x := '>') rfl).bind fun _ => .ite
      ((sign_stable (x := '>') rfl).bind fun _ => .pure _)
      (assignment_stable.bind fun _ => .pure _)
  case content frames =>
    match frames with
    | [] => exact blanks_stable.bind fun _ => item_stable _
    | ⟨.loop .., _⟩ :: _ =>
      exact blanks_stable.bind fun _ => atEnd_stable.bind fun _ => .ite (.throw _) (item_stable _)
    | ⟨.element .., _⟩ :: _ => exact step_element_stable

theorem run_stable (s : State) : (run s).Stable where
  consumes := (run_consumes s).weaken (Nat.zero_le _)
  ok := by
    intro c t d h ne w
    fun_induction run s c with
    | case1 => cases h
    | case2 s c u d' h' =>
      cases h
      exact run_of_step ((step_stable s).ok h' ne w)
    | case3 s c s' d' h' _ ih =>
      obtain ⟨_, reads, _⟩ := (run_consumes s').ok h
      rw [run_of_step ((step_stable s).ok h' (reads.rest_ne_nil ne) w)]
      exact ih h
  error := by
    intro c e d h ne whole w
    fun_induction run s c with
    | case1 s c e' d' h' =>
      cases h
      exact run_of_step_error ((step_stable s).error h' ne whole w)
    | case2 => cases h
    | case3 s c s' d' h' _ ih =>
      obtain ⟨_, reads⟩ := (run_consumes s').error h
      rw [run_of_step ((step_stable s).ok h' (reads.rest_ne_nil ne) w)]
      exact ih h

end State

theorem Scan.template_stable : template.Stable :=
  (State.run_stable _).bind fun _ => blanks_stable.bind fun _ =>
  atEnd_stable.bind fun _ => .ite (.pure _) (.throw _)

end MarkupTemplate
