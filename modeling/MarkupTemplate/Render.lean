import MarkupTemplate.Evaluation.Basic
import MarkupTemplate.Parser.Basic

/-!
Rendering: a source is read and evaluated in one go, and fails in one of the two phases.
-/

namespace MarkupTemplate

inductive RenderError where
  | reading (e : SyntaxError)
  | evaluation (e : EvaluationError Span)
deriving DecidableEq, Repr

namespace RenderError

def message : RenderError → String
  | reading e => "parse error: " ++ e.message
  | evaluation e => "evaluation error: " ++ e.message

-- The bare reason, without the place.
def reason : RenderError → String
  | reading e => e.cause.message
  | evaluation e => e.cause.message

-- An error of reading is at one position, which is an empty span.
def span : RenderError → Span
  | reading e => e.span
  | evaluation e => e.site

def snippet (e : RenderError) (source : String) : Snippet :=
  .of source e.span

end RenderError

def render (source : String) (scope : Scope) : Except RenderError Value := do
  let t ← (Tree.parse source).mapError .reading
  (t.evaluate scope).mapError .evaluation

end MarkupTemplate
