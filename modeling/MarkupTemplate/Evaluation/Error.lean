import MarkupTemplate.Source.Snippet

/-!
The ways in which an evaluation can fail, each at the site of the node to blame.
-/

namespace MarkupTemplate

namespace EvaluationError

inductive Cause where
  | unbound (name : String)
  | notText
  | notList
  | notRenderable
deriving DecidableEq, Repr

def Cause.message : Cause → String
  | unbound name => "variable `" ++ name ++ "` is not bound"
  | notText => "expected a string"
  | notList => "expected an array"
  | notRenderable => "expected a value that can be rendered as HTML"

end EvaluationError

structure EvaluationError (ι : Type) where
  cause : EvaluationError.Cause
  site : ι
deriving DecidableEq, Repr

namespace EvaluationError

variable {ι κ α β : Type}

def map (f : ι → κ) (e : EvaluationError ι) : EvaluationError κ :=
  ⟨e.cause, f e.site⟩

-- Puts a failure down to the node at `site`.
def blame (site : ι) (x : Except Cause α) : Except (EvaluationError ι) α :=
  x.mapError (⟨·, site⟩)

@[simp]
theorem mapError_blame (f : ι → κ) (site : ι) (x : Except Cause α) :
    (blame site x).mapError (map f) = blame (f site) x := by
  cases x <;> rfl

@[simp]
theorem mapError_pure (f : ι → κ) (a : α) :
    (pure a : Except (EvaluationError ι) α).mapError (map f) = pure a :=
  rfl

@[simp]
theorem mapError_map (f : ι → κ) (g : α → β) (x : Except (EvaluationError ι) α) :
    (g <$> x).mapError (map f) = g <$> x.mapError (map f) := by
  cases x <;> rfl

@[simp]
theorem mapError_bind (f : ι → κ) (x : Except (EvaluationError ι) α)
    (g : α → Except (EvaluationError ι) β) :
    (x >>= g).mapError (map f) = x.mapError (map f) >>= fun a => (g a).mapError (map f) := by
  cases x <;> rfl

@[simp]
theorem mapError_mapM (f : ι → κ) (as : List α) (g : α → Except (EvaluationError ι) β) :
    (as.mapM g).mapError (map f) = as.mapM fun a => (g a).mapError (map f) := by
  induction as with
  | nil => rfl
  | cons a as ih => simp only [List.mapM_cons, mapError_bind, ih, mapError_pure]

def message (e : EvaluationError Span) : String :=
  e.cause.message ++ " at " ++ e.site.text

def snippet (e : EvaluationError Span) (source : String) : Snippet :=
  .of source e.site

end EvaluationError
end MarkupTemplate
