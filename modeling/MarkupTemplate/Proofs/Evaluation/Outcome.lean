import MarkupTemplate.Render

/-!
Outcomes of an evaluation. A part of a template succeeds if all that is evaluated for it does, and
otherwise it fails as the first thing that does not. `evaluateBody_eq_error` and
`evaluateAttributes_eq_error` find the child or the attribute that this is. What was read renders as
it evaluates.
-/

namespace MarkupTemplate

namespace EvaluationError

variable {ε ι α β : Type}

theorem mapError_eq_ok_iff {ε' : Type} {x : Except ε α} {f : ε → ε'} {a : α} :
    x.mapError f = .ok a ↔ x = .ok a := by
  cases x with
  | ok b =>
    constructor
    all_goals
      intro h
      cases h
      rfl
  | error e => exact ⟨nofun, nofun⟩

theorem mapError_eq_error_iff {ε' : Type} {x : Except ε α} {f : ε → ε'} {e : ε'} :
    x.mapError f = .error e ↔ ∃ e', x = .error e' ∧ f e' = e := by
  cases x with
  | ok a     => exact ⟨nofun, fun ⟨_, h, _⟩ => nomatch h⟩
  | error e' =>
    constructor
    case mp =>
      intro h
      cases h
      exact ⟨e', rfl, rfl⟩
    case mpr =>
      intro ⟨_, h, eq⟩
      cases h
      exact congrArg Except.error eq

theorem bind_eq_ok_iff {x : Except (EvaluationError ι) α} {f : α → Except (EvaluationError ι) β}
    {b : β} : (x >>= f) = .ok b ↔ ∃ a, x = .ok a ∧ f a = .ok b := by
  cases x with
  | ok    => simp [Bind.bind, Except.bind]
  | error => simp [Bind.bind, Except.bind]

theorem bind_eq_error_iff {x : Except ε α} {f : α → Except ε β} {e : ε} :
    (x >>= f) = .error e ↔ x = .error e ∨ ∃ a, x = .ok a ∧ f a = .error e := by
  cases x with
  | ok    => simp [Bind.bind, Except.bind]
  | error => simp [Bind.bind, Except.bind]

theorem blame_eq_ok_iff {site : ι} {x : Except Cause α} {a : α} :
    blame site x = .ok a ↔ x = .ok a :=
  mapError_eq_ok_iff

theorem blame_eq_error_iff {site : ι} {x : Except Cause α} {e : EvaluationError ι} :
    blame site x = .error e ↔ x = .error e.cause ∧ e.site = site := by
  obtain ⟨cause, site'⟩ := e
  simp only [blame, mapError_eq_error_iff, mk.injEq]
  grind

theorem exists_of_mapM_eq_error {f : α → Except ε β} {as : List α} {e : ε}
    (h : as.mapM f = .error e) : ∃ a ∈ as, f a = .error e := by
  induction as with
  | nil => cases h
  | cons a as ih =>
    simp only [List.mapM_cons, bind_eq_error_iff] at h
    cases h
    case inl h => exact ⟨a, List.mem_cons_self, h⟩
    case inr h =>
      obtain ⟨_, _, h | ⟨_, _, h⟩⟩ := h
      case inl =>
        have ⟨b, hb, failed⟩ := ih h
        exact ⟨b, List.mem_cons_of_mem _ hb, failed⟩
      case inr => cases h

end EvaluationError

namespace Value

open EvaluationError

def text? : Value → Option String
  | text s => some s
  | _      => none

def items? : Value → Option (List Value)
  | list vs => some vs
  | _       => none

variable {v : Value} {cause : Cause}

theorem asText_eq_ok_iff {s : String} : v.asText = .ok s ↔ v = .text s := by
  cases v <;> simp [asText]

theorem asList_eq_ok_iff {vs : List Value} : v.asList = .ok vs ↔ v = .list vs := by
  cases v <;> simp [asList]

theorem asHtml_eq_ok_iff {s : String} : v.asHtml = .ok s ↔ v.toHtml = .ok s :=
  mapError_eq_ok_iff

theorem asText_eq_error_iff : v.asText = .error cause ↔ cause = .notText ∧ ∀ s, v ≠ .text s := by
  cases v <;> simp [asText, eq_comm]

theorem asList_eq_error_iff : v.asList = .error cause ↔ cause = .notList ∧ ∀ vs, v ≠ .list vs := by
  cases v <;> simp [asList, eq_comm]

theorem asHtml_eq_error_iff :
    v.asHtml = .error cause ↔ cause = .notRenderable ∧ ∃ vs, v = .list vs := by
  rw [asHtml, mapError_eq_error_iff]
  simp only [toHtml_eq_error_iff]
  grind

end Value

namespace Tree

open EvaluationError

variable {ι : Type} {t : Tree ι} {scope : Scope} {v : Value} {e : EvaluationError ι}

-- What is bound to a variable.
def bound? (t : Tree ι) (scope : Scope) : Option Value :=
  match t.node with
  | .var x => scope.get? x
  | _      => none

theorem find_eq_ok_iff {x : String} : scope.find x = .ok v ↔ scope.get? x = some v := by
  rw [Scope.find]
  split <;> simp_all

theorem find_eq_error_iff {x : String} {cause : Cause} :
    scope.find x = .error cause ↔ cause = .unbound x ∧ scope.get? x = none := by
  rw [Scope.find]
  cases scope.get? x <;> simp [eq_comm]

-- Elements and loops come to markup, so any other value is what is bound to a variable.
theorem bound?_cases (h : t.evaluate scope = .ok v) :
    t.bound? scope = some v ∨ t.bound? scope = none ∧ ∃ s, v = .markup s := by
  obtain ⟨site, x | ⟨tag, attributes, body⟩ | ⟨binder, collection, body⟩⟩ := t
  case var =>
    rw [evaluate, blame_eq_ok_iff, find_eq_ok_iff] at h
    exact .inl h
  all_goals
    refine .inr ⟨rfl, ?_⟩
    simp only [evaluate, bind_eq_ok_iff, pure, Except.pure, Except.ok.injEq] at h
    grind

theorem bound?_of_evaluate (h : t.evaluate scope = .ok v) (ne : ∀ s, v ≠ .markup s) :
    t.bound? scope = some v := by
  cases bound?_cases h
  case inl bound => exact bound
  case inr h     =>
    obtain ⟨_, s, eq⟩ := h
    exact absurd eq (ne s)

theorem evaluateBody_eq_error {ts : List (Tree ι)} (h : evaluateBody ts scope = .error e) :
    ∃ (k : Nat) (u : Tree ι), ts[k]? = some u ∧ (u.evaluate scope = .error e ∨
      ∃ vs, u.evaluate scope = .ok (.list vs) ∧ e = ⟨.notRenderable, u.site⟩) := by
  induction ts with
  | nil => cases h
  | cons t ts ih =>
    simp only [evaluateBody, bind_eq_error_iff] at h
    obtain h | ⟨v, value, h | ⟨html, _, h | ⟨_, _, h⟩⟩⟩ := h
    · exact ⟨0, t, rfl, .inl h⟩
    · obtain ⟨shown, site⟩ := blame_eq_error_iff.mp h
      obtain ⟨cause, vs, eq⟩ := Value.asHtml_eq_error_iff.mp shown
      refine ⟨0, t, rfl, .inr ⟨vs, eq ▸ value, ?_⟩⟩
      rw [← cause, ← site]
    · obtain ⟨k, u, here, failed⟩ := ih h
      exact ⟨k + 1, u, here, failed⟩
    · cases h

theorem evaluateAttributes_eq_error {as : List (String × Tree ι)}
    (h : evaluateAttributes as scope = .error e) :
    ∃ (k : Nat) (a : String × Tree ι), as[k]? = some a ∧ (a.2.evaluate scope = .error e ∨
      ∃ v, a.2.evaluate scope = .ok v ∧ (∀ s, v ≠ .text s) ∧ e = ⟨.notText, a.2.site⟩) := by
  induction as with
  | nil => cases h
  | cons a as ih =>
    simp only [evaluateAttributes, bind_eq_error_iff] at h
    obtain h | ⟨v, value, h | ⟨s, _, h | ⟨_, _, h⟩⟩⟩ := h
    · exact ⟨0, a, rfl, .inl h⟩
    · obtain ⟨text, site⟩ := blame_eq_error_iff.mp h
      obtain ⟨cause, ne⟩ := Value.asText_eq_error_iff.mp text
      refine ⟨0, a, rfl, .inr ⟨v, value, ne, ?_⟩⟩
      rw [← cause, ← site]
    · obtain ⟨k, b, here, failed⟩ := ih h
      exact ⟨k + 1, b, here, failed⟩
    · cases h

end Tree

section

open EvaluationError

variable {source : String} {t : Tree Span} {scope : Scope}

theorem render_of_parse (parsed : Tree.parse source = .ok t) :
    render source scope = (t.evaluate scope).mapError .evaluation := by
  rw [render, parsed]
  rfl

theorem render_eq_ok_iff (parsed : Tree.parse source = .ok t) {v : Value} :
    render source scope = .ok v ↔ t.evaluate scope = .ok v := by
  rw [render_of_parse parsed, mapError_eq_ok_iff]

theorem render_eq_error_iff (parsed : Tree.parse source = .ok t) {e : EvaluationError Span} :
    render source scope = .error (.evaluation e) ↔ t.evaluate scope = .error e := by
  simp [render_of_parse parsed, mapError_eq_error_iff]

end
end MarkupTemplate
