/-!
Stretches of a source text, given by the byte positions of their first and just past their last
byte.
-/

namespace MarkupTemplate

structure Span where
  start : Nat
  stop : Nat
deriving DecidableEq, Repr, Inhabited

namespace Span

-- The empty span at a position.
def point (position : Nat) : Span :=
  ⟨position, position⟩

-- A span that ends before it starts has no length.
def length (s : Span) : Nat :=
  s.stop - s.start

def text (s : Span) : String :=
  toString s.start ++ ".." ++ toString s.stop

end Span
end MarkupTemplate
