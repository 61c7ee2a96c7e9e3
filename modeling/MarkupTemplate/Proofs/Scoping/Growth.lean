import Mathlib.Data.List.Basic
import MarkupTemplate.Proofs.Evaluation.Outcome

/-!
Scopes with more names. What a template comes to in a scope it comes to in every larger one, unless
it lacks a name that is bound there. So bindings that are added can make up for a missing name, and
they change nothing else (`evaluate_of_within`).
-/

namespace MarkupTemplate

open EvaluationError

namespace Scope

variable {s s' : Scope} {x y : String} {v : Value}

-- All that is bound in `s` is bound to the same value in `s'`.
def Within (s s' : Scope) : Prop :=
  ∀ x v, s.get? x = some v → s'.get? x = some v

-- Only `s'` binds the name.
def Gains (s s' : Scope) (x : String) : Prop :=
  s.get? x = none ∧ s'.get? x ≠ none

theorem Within.bind (h : s.Within s') (y : String) (v : Value) :
    (s.bind y v).Within (s'.bind y v) := by
  intro x w
  simp only [get?_bind]
  split
  case isTrue  => exact id
  case isFalse => exact h x w

-- Both scopes bind the name of a loop, so in its body no other names are gained than outside.
theorem Gains.of_bind (h : (s.bind y v).Gains (s'.bind y v) x) : s.Gains s' x := by
  simp only [Gains, get?_bind] at h ⊢
  split at h
  case isTrue  => cases h.1
  case isFalse => exact h

theorem within_bind (h : s.get? y = none) (v : Value) : s.Within (s.bind y v) := by
  intro x w bound
  have ne : y ≠ x := by
    intro eq
    cases (eq ▸ h).symm.trans bound
  simp only [get?_bind, if_neg ne, bound]

end Scope

-- The second computation comes to what the first one does, unless that lacks a name that was gained.
inductive SameUnless {ι α : Type} (gained : String → Prop) :
    Except (EvaluationError ι) α → Except (EvaluationError ι) α → Prop where
  | refl (x : Except (EvaluationError ι) α) : SameUnless gained x x
  | cured {name : String} {site : ι} {y : Except (EvaluationError ι) α} :
    gained name → SameUnless gained (.error ⟨.unbound name, site⟩) y

namespace SameUnless

variable {ι α β : Type} {gained gained' : String → Prop} {x y : Except (EvaluationError ι) α}

theorem weaken (h : SameUnless gained x y) (le : ∀ name, gained name → gained' name) :
    SameUnless gained' x y := by
  cases h
  case refl       => exact .refl x
  case cured gain => exact .cured (le _ gain)

theorem bind {f g : α → Except (EvaluationError ι) β} (h : SameUnless gained x y)
    (hf : ∀ a, SameUnless gained (f a) (g a)) : SameUnless gained (x >>= f) (y >>= g) := by
  cases h
  case cured gain => exact .cured gain
  case refl =>
    cases x
    case ok a    => exact hf a
    case error e => exact .refl (.error e)

theorem mapM {f g : α → Except (EvaluationError ι) β} (hf : ∀ a, SameUnless gained (f a) (g a))
    (as : List α) : SameUnless gained (as.mapM f) (as.mapM g) := by
  induction as with
  | nil => exact .refl _
  | cons a as ih =>
    simp only [List.mapM_cons]
    exact (hf a).bind fun _ => ih.bind fun _ => .refl _

theorem eq_ok {v : α} (h : SameUnless gained (.ok v) y) : y = .ok v := by
  cases h
  rfl

theorem eq_error {e : EvaluationError ι} (h : SameUnless gained (.error e) y)
    (other : ∀ name, e.cause = .unbound name → ¬gained name) : y = .error e := by
  cases h
  case refl       => rfl
  case cured gain => exact absurd gain (other _ rfl)

end SameUnless

namespace Tree

variable {ι : Type} {t : Tree ι} {scope scope' : Scope}

theorem sameUnless_find (h : scope.Within scope') (site : ι) (x : String) :
    SameUnless (scope.Gains scope') (blame site (scope.find x)) (blame site (scope'.find x)) := by
  cases bound : scope.get? x
  case some v =>
    have same : scope.find x = scope'.find x := by simp only [Scope.find, bound, h x v bound]
    rw [same]
    exact .refl _
  case none =>
    have missing : scope.find x = .error (.unbound x) := find_eq_error_iff.mpr ⟨rfl, bound⟩
    rw [missing]
    cases bound' : scope'.get? x
    case some => exact .cured ⟨bound, by simp [bound']⟩
    case none =>
      rw [find_eq_error_iff.mpr ⟨rfl, bound'⟩]
      exact .refl _

section

variable {gained : String → Prop}

theorem sameUnless_attributes {as : List (String × Tree ι)}
    (h : ∀ a ∈ as, SameUnless gained (a.2.evaluate scope) (a.2.evaluate scope')) :
    SameUnless gained (evaluateAttributes as scope) (evaluateAttributes as scope') := by
  induction as with
  | nil => exact .refl _
  | cons a as ih =>
    have ⟨value, others⟩ := List.forall_mem_cons.mp h
    simp only [evaluateAttributes]
    exact value.bind fun _ => (SameUnless.refl _).bind fun _ => (ih others).bind fun _ => .refl _

theorem sameUnless_body {ts : List (Tree ι)}
    (h : ∀ t ∈ ts, SameUnless gained (t.evaluate scope) (t.evaluate scope')) :
    SameUnless gained (evaluateBody ts scope) (evaluateBody ts scope') := by
  induction ts with
  | nil => exact .refl _
  | cons t ts ih =>
    have ⟨value, others⟩ := List.forall_mem_cons.mp h
    simp only [evaluateBody]
    exact value.bind fun _ => (SameUnless.refl _).bind fun _ => (ih others).bind fun _ => .refl _

end

theorem sameUnless_evaluate (h : scope.Within scope') :
    SameUnless (scope.Gains scope') (t.evaluate scope) (t.evaluate scope') := by
  induction t generalizing scope scope' with
  | var site x =>
    simp only [evaluate]
    exact sameUnless_find h site x
  | element site tag attributes body ihA ihB =>
    simp only [evaluate]
    exact (sameUnless_body fun t ht => ihB t ht h).bind fun _ =>
      (sameUnless_attributes fun a ha => ihA a ha h).bind fun _ => .refl _
  | loop site binder collection body ihC ihB =>
    have bodies (item : Value) : SameUnless (scope.Gains scope')
        (evaluateBody body (scope.bind binder item)) (evaluateBody body (scope'.bind binder item)) :=
      (sameUnless_body fun t ht => ihB t ht (h.bind binder item)).weaken fun _ => .of_bind
    simp only [evaluate]
    exact (ihC h).bind fun _ => (SameUnless.refl _).bind fun items =>
      (SameUnless.mapM bodies items).bind fun _ => .refl _

theorem evaluate_of_within (h : scope.Within scope') :
    (∀ v, t.evaluate scope = .ok v → t.evaluate scope' = .ok v) ∧
      ∀ e, t.evaluate scope = .error e →
        (∀ x, e.cause = .unbound x → scope'.get? x = none) → t.evaluate scope' = .error e := by
  have same := sameUnless_evaluate (t := t) h
  refine ⟨fun v value => ?_, fun e failed missing => ?_⟩
  · exact (value ▸ same).eq_ok
  · exact (failed ▸ same).eq_error fun x unbound gain => gain.2 (missing x unbound)

-- The new name stands in the body of a loop without items, and further on a name is missing.
theorem evaluate_of_within_unused :
    let loop : Tree Span := ⟨⟨4, 31⟩, .loop "x" ⟨⟨13, 15⟩, .var "xs"⟩ [⟨⟨18, 21⟩, .var "new"⟩]⟩
    let scope := Scope.empty.bind "xs" (.list [])
    let scope' := scope.bind "new" (.list [])
    loop.evaluate scope' = .ok (.markup "") ∧
      evaluate ⟨⟨0, 40⟩, .element "p" [] [loop, ⟨⟨33, 34⟩, .var "y"⟩]⟩ scope' =
        .error ⟨.unbound "y", ⟨33, 34⟩⟩ := by
  intro loop scope scope'
  let t : Tree Span := ⟨⟨0, 40⟩, .element "p" [] [loop, ⟨⟨33, 34⟩, .var "y"⟩]⟩
  have within : scope.Within scope' := Scope.within_bind (by decide +kernel) _
  have empty : loop.evaluate scope = .ok (.markup "") := by decide +kernel
  have failed : t.evaluate scope = .error ⟨.unbound "y", ⟨33, 34⟩⟩ := by decide +kernel
  refine ⟨(evaluate_of_within within).1 _ empty, (evaluate_of_within within).2 _ failed ?_⟩
  intro x eq
  cases eq
  decide +kernel

end Tree
end MarkupTemplate
