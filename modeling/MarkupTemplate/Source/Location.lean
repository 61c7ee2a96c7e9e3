import MarkupTemplate.Text.Bytes

/-!
Lines and columns. A location counts from one, columns count characters, and a line feed ends
its line. `Location.of` walks to a byte position from the start of the source.
-/

namespace MarkupTemplate

structure Location where
  line : Nat
  column : Nat
deriving DecidableEq, Repr

namespace Location

def first : Location :=
  ⟨1, 1⟩

-- Where the character after `c` stands, if `c` stands at `l`.
def after (l : Location) (c : Char) : Location :=
  if c = '\n' then ⟨l.line + 1, 1⟩ else ⟨l.line, l.column + 1⟩

def of (source : String) (position : Nat) : Location :=
  (Bytes.take position source.toList).foldl after first

def text (l : Location) : String :=
  toString l.line ++ ":" ++ toString l.column

theorem line_foldl_after (cs : List Char) (l : Location) :
    (cs.foldl after l).line = l.line + cs.count '\n' := by
  induction cs generalizing l with
  | nil => rfl
  | cons c cs ih =>
    simp only [List.foldl_cons, ih, after, List.count_cons]
    split
    case isTrue h  => simp [h]; omega
    case isFalse h => simp [h]

theorem column_foldl_after_of_not_mem {cs : List Char} (h : '\n' ∉ cs) (l : Location) :
    (cs.foldl after l).column = l.column + cs.length := by
  induction cs generalizing l with
  | nil => rfl
  | cons c cs ih =>
    simp only [List.mem_cons, not_or] at h
    simp [ih h.2, after, Ne.symm h.1]
    omega

end Location
end MarkupTemplate
