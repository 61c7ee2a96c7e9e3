import MarkupTemplate.Proofs.Evaluation.Outcome
import MarkupTemplate.Proofs.Place.Path
import MarkupTemplate.Proofs.Printing.WellFormed

/-!
The variable that a failed evaluation is put down to. `blames_of_evaluate` finds it by its path, and
says what is asked for there and what the scope has for its name.
-/

namespace MarkupTemplate

namespace EvaluationError.Cause

-- What is asked for where the last turn leads.
def AsksAt : Cause → Option Turn → Prop
  | unbound _, _                   => True
  | notText, some (.value _)       => True
  | notList, some .collection      => True
  | notRenderable, some (.child _) => True
  | _, _                           => False

-- What is bound to a name, if anything, is not what is asked for.
def Refuses : Cause → Option Value → Prop
  | unbound _, v     => v = none
  | notText, v       => ∃ w, v = some w ∧ ∀ s, w ≠ .text s
  | notList, v       => ∃ w, v = some w ∧ ∀ vs, w ≠ .list vs
  | notRenderable, v => ∃ vs, v = some (.list vs)

theorem AsksAt.cons {cause : Cause} {path : List Turn} (h : cause.AsksAt path.getLast?)
    (turn : Turn) : cause.AsksAt (turn :: path).getLast? := by
  rw [List.getLast?_cons]
  cases eq : path.getLast?
  case some => rwa [eq] at h
  case none =>
    rw [eq] at h
    cases cause
    case unbound => trivial
    all_goals exact h.elim

end EvaluationError.Cause

-- Behind a turn the names that it binds are bound to something, and all others as before it.
def Node.Opens {α : Type} (n : Node α) (turn : Turn) (outer inner : Scope) : Prop :=
  ∀ x, (x ∈ n.binds turn → inner.get? x ≠ none) ∧
    (x ∉ n.binds turn → inner.get? x = outer.get? x)

theorem Node.opens_self {α : Type} {n : Node α} {turn : Turn} (h : n.binds turn = [])
    (scope : Scope) : n.Opens turn scope scope := by
  simp [Opens, h]

theorem Node.opens_bind {α : Type} (binder : String) (collection : α) (body : List α) (k : Nat)
    (scope : Scope) (v : Value) :
    (loop binder collection body).Opens (.child k) scope (scope.bind binder v) := by
  intro x
  simp only [binds, List.mem_singleton, Scope.get?_bind]
  grind

namespace Tree

open EvaluationError

variable {ι : Type} {t u : Tree ι} {scope inner : Scope} {e : EvaluationError ι} {turn : Turn}
  {path : List Turn} {x : String}

-- The error is put down to the variable `x` at the path. A name that is not bound is never that of
-- a loop around it.
structure Guilty (t : Tree ι) (scope : Scope) (e : EvaluationError ι) (path : List Turn)
    (x : String) : Prop where
  here  : t.at? path = some ⟨e.site, .var x⟩
  free  : ∀ name, e.cause = .unbound name → name = x ∧ x ∉ t.binders path
  value : x ∉ t.binders path → e.cause.Refuses (scope.get? x)

theorem Guilty.below (h : u.Guilty inner e path x) (part : t.node.part? turn = some u)
    (opens : t.node.Opens turn scope inner) : t.Guilty scope e (turn :: path) x where
  here := at?_cons_eq_some_iff.mpr ⟨u, part, h.here⟩
  free := by
    intro name cause
    have ⟨eq, free⟩ := h.free name cause
    have missing := h.value free
    rw [cause] at missing
    rw [binders_cons part, List.mem_append, not_or]
    exact ⟨eq, fun bound => (opens x).1 bound missing, free⟩
  value := by
    intro free
    rw [binders_cons part, List.mem_append, not_or] at free
    exact (opens x).2 free.1 ▸ h.value free.2

theorem exists_of_bound?_eq_some {v : Value} (h : t.bound? scope = some v) :
    ∃ x, t = ⟨t.site, .var x⟩ ∧ scope.get? x = some v := by
  obtain ⟨_, x | _ | _⟩ := t
  case var => exact ⟨x, rfl, h⟩
  all_goals cases h

-- A variable that has a value, but not of the kind that is asked for.
theorem guilty_of_bound? (cause : Cause) {v : Value}
    (h : t.bound? scope = some v) (refuses : cause.Refuses (some v)) :
    ∃ x, t.Guilty scope ⟨cause, t.site⟩ [] x := by
  have ⟨x, here, value⟩ := exists_of_bound?_eq_some h
  refine ⟨x, congrArg some here, ?_, fun _ => value ▸ refuses⟩
  intro name eq
  cases eq
  cases refuses

theorem bound?_of_isVariable {v : Value} (variable' : t.IsVariable)
    (h : t.evaluate scope = .ok v) : t.bound? scope = some v := by
  obtain ⟨site, _⟩ := t
  obtain ⟨x, rfl⟩ := variable'
  rw [evaluate, blame_eq_ok_iff, find_eq_ok_iff] at h
  exact h

-- The node is found below `t`, and it is known there what is asked for.
def Blames (t : Tree ι) (scope : Scope) (e : EvaluationError ι) : Prop :=
  ∃ path x, t.Guilty scope e path x ∧ e.cause.AsksAt path.getLast?

theorem Blames.below (h : u.Blames inner e) (part : t.node.part? turn = some u)
    (opens : t.node.Opens turn scope inner) : t.Blames scope e := by
  have ⟨path, x, guilty, asks⟩ := h
  exact ⟨turn :: path, x, guilty.below part opens, asks.cons turn⟩

theorem blames_of_evaluateBody {ts : List (Tree ι)}
    (ih : ∀ u ∈ ts, ∀ {e}, u.evaluate inner = .error e → u.Blames inner e)
    (parts : ∀ k, t.node.part? (.child k) = ts[k]?)
    (opens : ∀ k, t.node.Opens (.child k) scope inner)
    (h : evaluateBody ts inner = .error e) : t.Blames scope e := by
  have ⟨k, u, here, failed⟩ := evaluateBody_eq_error h
  have part := (parts k).trans here
  cases failed
  case inl failed => exact (ih u (List.mem_of_getElem? here) failed).below part (opens k)
  case inr list =>
    obtain ⟨vs, value, rfl⟩ := list
    have ⟨x, guilty⟩ := guilty_of_bound? .notRenderable (bound?_of_evaluate value nofun) ⟨vs, rfl⟩
    exact ⟨[.child k], x, guilty.below part (opens k), trivial⟩

theorem blames_of_evaluate (sound : t.Sound) (h : t.evaluate scope = .error e) :
    t.Blames scope e := by
  induction sound generalizing scope e with
  | @var site x =>
    obtain ⟨cause, here⟩ := e
    rw [evaluate, blame_eq_error_iff, find_eq_error_iff] at h
    obtain ⟨⟨rfl, missing⟩, rfl⟩ := h
    refine ⟨[], x, ⟨rfl, ?_, fun _ => missing⟩, trivial⟩
    intro name eq
    cases eq
    refine ⟨rfl, ?_⟩
    intro bound
    cases bound
  | @element site tag attributes body _ values _ _ _ ihA ihB =>
    simp only [evaluate, bind_eq_error_iff] at h
    obtain h | ⟨_, _, h | ⟨_, _, h⟩⟩ := h
    · exact blames_of_evaluateBody (fun u hu => ihB u hu) (fun _ => rfl)
        (fun _ => Node.opens_self rfl _) h
    · obtain ⟨k, a, here, failed⟩ := evaluateAttributes_eq_error h
      have mem := List.mem_of_getElem? here
      have part : (Node.element tag attributes body).part? (.value k) = some a.2 := by
        simp [Node.part?, here]
      cases failed
      case inl failed => exact (ihA a mem failed).below part (Node.opens_self rfl _)
      case inr other  =>
        obtain ⟨v, value, ne, rfl⟩ := other
        obtain ⟨x, guilty⟩ := guilty_of_bound? .notText
          (bound?_of_isVariable (values a mem).2 value) ⟨v, rfl, ne⟩
        exact ⟨[.value k], x, guilty.below part (Node.opens_self rfl _), trivial⟩
    · cases h
  | @loop site binder collection body _ value _ _ _ ihC ihB =>
    have part : (Node.loop binder collection body).part? .collection = some collection := rfl
    simp only [evaluate, bind_eq_error_iff] at h
    obtain h | ⟨v, found, h | ⟨items, _, h | ⟨_, _, h⟩⟩⟩ := h
    · exact (ihC h).below part (Node.opens_self rfl _)
    · obtain ⟨cause, here⟩ := e
      rw [blame_eq_error_iff, Value.asList_eq_error_iff] at h
      obtain ⟨⟨rfl, ne⟩, rfl⟩ := h
      obtain ⟨x, guilty⟩ := guilty_of_bound? .notList (bound?_of_isVariable value found) ⟨v, rfl, ne⟩
      exact ⟨[.collection], x, guilty.below part (Node.opens_self rfl _), trivial⟩
    · obtain ⟨item, _, h⟩ := exists_of_mapM_eq_error h
      exact blames_of_evaluateBody (fun u hu => ihB u hu) (fun _ => rfl)
        (fun k => Node.opens_bind binder collection body k scope item) h
    · cases h

end Tree
end MarkupTemplate
