import MarkupTemplate.Source.Snippet
import MarkupTemplate.Text.Name

/-!
The ways in which a source can fail to be a template, each at the byte position where reading
stopped.
-/

namespace MarkupTemplate

namespace SyntaxError

inductive Cause where
  | missing (literal : String)
  | unclosed (tag : String)
  | unnamed (k : NameClass)
  | unexpected
deriving DecidableEq, Repr

def Cause.message : Cause → String
  | missing literal => "expected `" ++ literal ++ "`"
  | unclosed tag => "expected closing tag `</" ++ tag ++ ">`"
  | unnamed .identifier => "expected identifier"
  | unnamed .tagName => "expected tag name"
  | unnamed .attributeName => "expected attribute name"
  | unexpected => "unexpected input"

end SyntaxError

structure SyntaxError where
  cause : SyntaxError.Cause
  position : Nat
deriving DecidableEq, Repr

namespace SyntaxError

def message (e : SyntaxError) : String :=
  e.cause.message ++ " at offset " ++ toString e.position

def span (e : SyntaxError) : Span :=
  .point e.position

def snippet (e : SyntaxError) (source : String) : Snippet :=
  .of source e.span

end SyntaxError
end MarkupTemplate
