import MarkupTemplate.Evaluation.Error
import MarkupTemplate.Tree.Basic
import MarkupTemplate.Value.Scope

/-!
The value of a tree in a scope. The first failure in the order of evaluation is the one that is
reported. `evaluate_map` says that sites are only ever passed on: they take no part in what a
tree evaluates to.
-/

namespace MarkupTemplate

open EvaluationError

namespace Value

-- Markup is no text: it must not end up between the quotes of an attribute.
def asText : Value → Except Cause String
  | text s => .ok s
  | _ => .error .notText

def asList : Value → Except Cause (List Value)
  | list vs => .ok vs
  | _ => .error .notList

-- Text and markup can be placed between tags, a list cannot.
def asHtml (v : Value) : Except Cause String :=
  v.toHtml.mapError fun _ => .notRenderable

end Value

def Scope.find (scope : Scope) (name : String) : Except Cause Value :=
  match scope.get? name with
  | some v => .ok v
  | none   => .error (.unbound name)

namespace Tree

variable {ι κ : Type}

mutual

-- The body of an element comes before its attributes, although it stands after them.
def evaluate : Tree ι → Scope → Except (EvaluationError ι) Value
  | ⟨site, .var name⟩, scope => blame site (scope.find name)
  | ⟨_, .element tag attributes body⟩, scope => do
    let inner ← evaluateBody body scope
    let opening ← evaluateAttributes attributes scope
    return .markup ("<" ++ tag ++ opening ++ ">" ++ inner ++ "</" ++ tag ++ ">")
  | ⟨_, .loop binder collection body⟩, scope => do
    let v ← collection.evaluate scope
    let items ← blame collection.site v.asList
    let parts ← items.mapM fun item => evaluateBody body (scope.bind binder item)
    return .markup (String.join parts)

def evaluateAttributes :
    List (String × Tree ι) → Scope → Except (EvaluationError ι) String
  | [], _ => return ""
  | (name, t) :: as, scope => do
    let v ← t.evaluate scope
    let s ← blame t.site v.asText
    let others ← evaluateAttributes as scope
    return " " ++ name ++ "=\"" ++ escapeAttribute s ++ "\"" ++ others

def evaluateBody : List (Tree ι) → Scope → Except (EvaluationError ι) String
  | [], _ => return ""
  | t :: ts, scope => do
    let v ← t.evaluate scope
    let html ← blame t.site v.asHtml
    let others ← evaluateBody ts scope
    return html ++ others

end

theorem evaluate_map (f : ι → κ) (t : Tree ι) (scope : Scope) :
    (t.map f).evaluate scope = (t.evaluate scope).mapError (EvaluationError.map f) := by
  induction t generalizing scope with
  | var => simp [Tree.map, evaluate]
  | element _ _ attributes body ihA ihB =>
    simp [Tree.map, evaluate, attributes_map ihA, body_map ihB]
  | loop _ _ collection body ihC ihB =>
    simp [Tree.map, evaluate, ihC, body_map ihB]
where
  attributes_map : {as : List (String × Tree ι)} →
      (∀ a ∈ as, ∀ scope, (a.2.map f).evaluate scope =
        (a.2.evaluate scope).mapError (EvaluationError.map f)) →
      ∀ scope, evaluateAttributes (Attributes.mapEntries (Tree.map f) as) scope =
        (evaluateAttributes as scope).mapError (EvaluationError.map f)
    | [], _, _ => rfl
    | (name, t) :: as, h, scope => by
      obtain ⟨ht, has⟩ := List.forall_mem_cons.mp h
      have := attributes_map has scope
      simp_all [Attributes.mapEntries, evaluateAttributes]
  body_map : {ts : List (Tree ι)} →
      (∀ t ∈ ts, ∀ scope, (t.map f).evaluate scope =
        (t.evaluate scope).mapError (EvaluationError.map f)) →
      ∀ scope, evaluateBody (ts.map (Tree.map f)) scope =
        (evaluateBody ts scope).mapError (EvaluationError.map f)
    | [], _, _ => rfl
    | t :: ts, h, scope => by
      obtain ⟨ht, hts⟩ := List.forall_mem_cons.mp h
      simp [evaluateBody, ht, body_map hts]

end Tree
end MarkupTemplate
