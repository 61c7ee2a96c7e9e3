import MarkupTemplate.Proofs.Evaluation.Outcome

/-!
The obligations of a tree in a scope: all that has to hold for it to have a value, in the order in
which evaluation asks for it. They are listed without an evaluation, with all loops unrolled.
`settles_evaluate` says that evaluation fails as the first of them that is not met.
-/

namespace MarkupTemplate

open EvaluationError

structure Obligation (ι : Type) where
  cause : Cause
  site : ι
  met : Bool
deriving DecidableEq

namespace Obligation

variable {ι α β : Type} {os ps : List (Obligation ι)}

def error (o : Obligation ι) : EvaluationError ι :=
  ⟨o.cause, o.site⟩

def firstUnmet (os : List (Obligation ι)) : Option (Obligation ι) :=
  os.find? (!·.met)

theorem firstUnmet_eq_none_iff : firstUnmet os = none ↔ ∀ o ∈ os, o.met := by
  simp [firstUnmet]

theorem firstUnmet_append : firstUnmet (os ++ ps) = (firstUnmet os).or (firstUnmet ps) :=
  List.find?_append

-- The computation succeeds if all of this is met, and otherwise it fails as the first that is not.
def Settles (os : List (Obligation ι)) (x : Except (EvaluationError ι) α) : Prop :=
  match firstUnmet os with
  | some o => x = .error o.error
  | none   => ∃ a, x = .ok a

namespace Settles

variable {x : Except (EvaluationError ι) α}

theorem pure (a : α) : Settles ([] : List (Obligation ι)) (pure a) :=
  ⟨a, rfl⟩

theorem bind {f : α → Except (EvaluationError ι) β} (first : Settles os x)
    (others : ∀ a, x = .ok a → Settles ps (f a)) : Settles (os ++ ps) (x >>= f) := by
  unfold Settles at first others ⊢
  rw [firstUnmet_append]
  cases eq : firstUnmet os <;> simp only [eq] at first
  case some o =>
    rw [first]
    rfl
  case none =>
    have ⟨a, ok⟩ := first
    rw [ok]
    exact others a ok

theorem map {f : α → β} (h : Settles os x) : Settles os (x >>= fun a => Pure.pure (f a)) :=
  List.append_nil os ▸ h.bind fun a _ => pure (f a)

theorem mapM {as : List α} {f : α → Except (EvaluationError ι) β} {os : α → List (Obligation ι)}
    (each : ∀ a, Settles (os a) (f a)) : Settles (as.flatMap os) (as.mapM f) := by
  induction as with
  | nil => exact pure []
  | cons a as ih =>
    rw [List.mapM_cons, List.flatMap_cons]
    exact (each a).bind fun _ _ => ih.map

theorem exists_ok_iff (h : Settles os x) : (∃ a, x = .ok a) ↔ ∀ o ∈ os, o.met := by
  rw [← firstUnmet_eq_none_iff]
  unfold Settles at h
  cases eq : firstUnmet os <;> simp only [eq] at h
  case none   => simp [h]
  case some o => simp [h]

theorem eq_error_iff (h : Settles os x) {e : EvaluationError ι} :
    x = .error e ↔ ∃ o, firstUnmet os = some o ∧ o.error = e := by
  unfold Settles at h
  cases eq : firstUnmet os <;> simp only [eq] at h
  case none   =>
    have ⟨_, ok⟩ := h
    simp [ok]
  case some o => simp [h]

end Settles
end Obligation

namespace Tree

variable {ι : Type} {t : Tree ι} {scope : Scope} {v : Value}

-- Elements and loops come to markup. What comes to a list or to a text is a variable.
def items? (t : Tree ι) (scope : Scope) : Option (List Value) :=
  (t.bound? scope).bind Value.items?

def text? (t : Tree ι) (scope : Scope) : Option String :=
  (t.bound? scope).bind Value.text?

mutual

-- After what a part needs to have a value comes what this value has to be where the part stands.
def obligations : Tree ι → Scope → List (Obligation ι)
  | ⟨site, .var x⟩, scope => [⟨.unbound x, site, scope.contains x⟩]
  | ⟨_, .element _ attributes body⟩, scope =>
    bodyObligations body scope ++ attributeObligations attributes scope
  | ⟨_, .loop binder collection body⟩, scope =>
    let items := collection.items? scope
    collection.obligations scope ++ ⟨.notList, collection.site, items.isSome⟩ ::
      (items.getD []).flatMap fun item => bodyObligations body (scope.bind binder item)

def attributeObligations : List (String × Tree ι) → Scope → List (Obligation ι)
  | [], _ => []
  | (_, t) :: as, scope =>
    t.obligations scope ++ ⟨.notText, t.site, (t.text? scope).isSome⟩ :: attributeObligations as scope

def bodyObligations : List (Tree ι) → Scope → List (Obligation ι)
  | [], _ => []
  | t :: ts, scope =>
    t.obligations scope ++ ⟨.notRenderable, t.site, (t.items? scope).isNone⟩ ::
      bodyObligations ts scope

end

open Obligation

theorem bound?_bind {α : Type} {f : Value → Option α} (h : t.evaluate scope = .ok v)
    (markup : ∀ s, f (.markup s) = none) : (t.bound? scope).bind f = f v := by
  cases bound?_cases h
  case inl bound => rw [bound, Option.bind_some]
  case inr h     =>
    obtain ⟨unbound, s, rfl⟩ := h
    rw [unbound, Option.bind_none, markup]

section

variable (h : t.evaluate scope = .ok v)

include h

theorem settles_asList :
    Settles [⟨.notList, t.site, (t.items? scope).isSome⟩] (blame t.site v.asList) := by
  rw [items?, bound?_bind h fun _ => rfl]
  cases v
  case list vs => exact ⟨vs, rfl⟩
  all_goals rfl

theorem settles_asText :
    Settles [⟨.notText, t.site, (t.text? scope).isSome⟩] (blame t.site v.asText) := by
  rw [text?, bound?_bind h fun _ => rfl]
  cases v
  case text s => exact ⟨s, rfl⟩
  all_goals rfl

theorem settles_asHtml :
    Settles [⟨.notRenderable, t.site, (t.items? scope).isNone⟩] (blame t.site v.asHtml) := by
  rw [items?, bound?_bind h fun _ => rfl]
  cases v
  case list => rfl
  all_goals exact ⟨_, rfl⟩

end

theorem settles_evaluateAttributes {as : List (String × Tree ι)}
    (h : ∀ a ∈ as, Settles (a.2.obligations scope) (a.2.evaluate scope)) :
    Settles (attributeObligations as scope) (evaluateAttributes as scope) := by
  induction as with
  | nil => exact .pure ""
  | cons a as ih =>
    have ⟨value, others⟩ := List.forall_mem_cons.mp h
    exact value.bind fun _ eq => (settles_asText eq).bind fun _ _ => (ih others).map

theorem settles_evaluateBody {ts : List (Tree ι)}
    (h : ∀ t ∈ ts, Settles (t.obligations scope) (t.evaluate scope)) :
    Settles (bodyObligations ts scope) (evaluateBody ts scope) := by
  induction ts with
  | nil => exact .pure ""
  | cons t ts ih =>
    have ⟨value, others⟩ := List.forall_mem_cons.mp h
    exact value.bind fun _ eq => (settles_asHtml eq).bind fun _ _ => (ih others).map

theorem settles_evaluate (t : Tree ι) (scope : Scope) :
    Settles (t.obligations scope) (t.evaluate scope) := by
  induction t generalizing scope with
  | var site x =>
    rw [obligations, evaluate, Scope.find, Scope.contains_eq_isSome]
    cases scope.get? x
    case none   => rfl
    case some v => exact ⟨v, rfl⟩
  | element site tag attributes body ihA ihB =>
    refine (settles_evaluateBody fun t ht => ihB t ht scope).bind fun _ _ => ?_
    exact (settles_evaluateAttributes fun a ha => ihA a ha scope).map
  | loop site binder collection body ihC ihB =>
    refine (ihC scope).bind fun v value => ?_
    refine (settles_asList value).bind fun items list => ?_
    cases Value.asList_eq_ok_iff.mp (blame_eq_ok_iff.mp list)
    rw [items?, bound?_bind value fun _ => rfl]
    exact (Settles.mapM fun item => settles_evaluateBody fun t ht => ihB t ht _).map

theorem evaluate_fails_first (t : Tree ι) (scope : Scope) :
    ((∃ v, t.evaluate scope = .ok v) ↔ ∀ o ∈ t.obligations scope, o.met) ∧
      (∀ e, t.evaluate scope = .error e ↔
        ∃ o, firstUnmet (t.obligations scope) = some o ∧ o.error = e) ∧
      ∀ tag attributes body, t.node = .element tag attributes body →
        ∀ o, firstUnmet (bodyObligations body scope) = some o →
          t.evaluate scope = .error o.error := by
  have settles := settles_evaluate t scope
  refine ⟨settles.exists_ok_iff, fun _ => settles.eq_error_iff, ?body⟩
  case body =>
    intro tag attributes body here o unmet
    obtain ⟨site, _⟩ := t
    cases here
    refine settles.eq_error_iff.mpr ⟨o, ?_, rfl⟩
    rw [obligations, firstUnmet_append, unmet, Option.some_or]

-- The attribute stands before the body and cannot be evaluated either.
theorem evaluate_fails_first_in_body :
    let t : Tree Nat := ⟨0, .element "a" [("x", ⟨1, .var "missing"⟩)]
      [⟨2, .loop "i" ⟨3, .var "is"⟩ [⟨4, .var "i"⟩]⟩]⟩
    let scope := Scope.empty.bind "is" (.list [.text "y", .list []])
    t.evaluate scope = .error ⟨.notRenderable, 4⟩ := by
  intro t scope
  have ⟨_, _, body⟩ := evaluate_fails_first t scope
  exact body _ _ _ rfl ⟨.notRenderable, 4, false⟩ (by decide +kernel)

end Tree
end MarkupTemplate
