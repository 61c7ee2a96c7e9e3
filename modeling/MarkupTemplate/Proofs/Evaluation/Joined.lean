import MarkupTemplate.Evaluation.Basic

/-!
Evaluation as joining. Bodies, attributes and loops all make a text of each of their items and put
these texts one behind the other, which is `joined`.
-/

namespace MarkupTemplate

open EvaluationError

-- The texts that `f` makes of the items, one after the other.
def joined {ε β : Type} (f : β → Except ε String) (bs : List β) : Except ε String :=
  String.join <$> bs.mapM f

section

variable {ε β : Type} {f : β → Except ε String}

theorem joined_cons (b : β) (bs : List β) :
    joined f (b :: bs) = do return (← f b) ++ (← joined f bs) := by
  simp [joined]

theorem joined_singleton (b : β) : joined f [b] = f b := by
  simp [joined]

theorem joined_append (as bs : List β) :
    joined f (as ++ bs) = do return (← joined f as) ++ (← joined f bs) := by
  simp [joined, List.mapM_append]

theorem joined_flatten (parts : List (List β)) :
    joined f parts.flatten = joined (joined f) parts := by
  induction parts with
  | nil            => rfl
  | cons part _ ih => rw [List.flatten_cons, joined_append, joined_cons, ih]

end

namespace Tree

variable {ι : Type} {scope : Scope}

-- What a part of a body puts on the page.
def place (scope : Scope) (t : Tree ι) : Except (EvaluationError ι) String := do
  blame t.site (← t.evaluate scope).asHtml

-- An attribute as it is written in an opening tag.
def assign (scope : Scope) (a : String × Tree ι) : Except (EvaluationError ι) String := do
  return " " ++ a.1 ++ "=\"" ++ escapeAttribute (← blame a.2.site (← a.2.evaluate scope).asText) ++
    "\""

theorem evaluateBody_eq_joined (ts : List (Tree ι)) (scope : Scope) :
    evaluateBody ts scope = joined (place scope) ts := by
  induction ts with
  | nil          => rfl
  | cons t ts ih => simp [evaluateBody, joined_cons, place, ih]

theorem evaluateAttributes_eq_joined (as : List (String × Tree ι)) (scope : Scope) :
    evaluateAttributes as scope = joined (assign scope) as := by
  induction as with
  | nil          => rfl
  | cons a as ih => simp [evaluateAttributes, joined_cons, assign, ih]

theorem evaluate_loop (site : ι) (binder : String) (collection : Tree ι) (body : List (Tree ι))
    (scope : Scope) :
    evaluate ⟨site, .loop binder collection body⟩ scope = (do
      let items ← blame collection.site (← collection.evaluate scope).asList
      Value.markup <$> joined (fun item => evaluateBody body (scope.bind binder item)) items) := by
  simp [evaluate, joined]

end Tree
end MarkupTemplate
