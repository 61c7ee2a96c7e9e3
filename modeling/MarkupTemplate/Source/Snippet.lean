import MarkupTemplate.Source.Location
import MarkupTemplate.Source.Span

/-!
Snippets: the line of a source on which a span starts, with the part of the span on that line
underlined. Ends outside the source or inside a character move down to where a character starts,
and a span that ends before it starts is empty there.
-/

namespace MarkupTemplate

structure Snippet where
  location : Location
  line : String
  width : Nat
deriving DecidableEq, Repr

namespace Snippet

def sameLine (c : Char) : Bool :=
  c ≠ '\n'

-- Only what lies on the first line of the span is underlined.
def of (source : String) (s : Span) : Snippet where
  location := .of source s.start
  line := .ofList ((before.reverse.takeWhile sameLine).reverse ++ after.takeWhile sameLine)
  width := max 1 ((Bytes.take (s.stop - Bytes.length before) after).takeWhile sameLine).length
where
  before := Bytes.take s.start source.toList
  after := Bytes.drop s.start source.toList

def repeated (n : Nat) (c : Char) : String :=
  .ofList (List.replicate n c)

-- An empty span still gets one caret.
def text (s : Snippet) : String :=
  number ++ " | " ++ s.line ++ "\n" ++
    repeated number.length ' ' ++ " | " ++ repeated (s.location.column - 1) ' ' ++
    repeated s.width '^'
where
  number := toString s.location.line

end Snippet
end MarkupTemplate
