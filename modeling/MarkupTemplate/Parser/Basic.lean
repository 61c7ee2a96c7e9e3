import MarkupTemplate.Parser.State

/-!
Reading a template. A source holds exactly one node, with nothing but blanks around it. A cursor
can be read from again after a success or a failure, and goes on where it was left.
-/

namespace MarkupTemplate

namespace State

-- Every step reads something, so the text that is left bounds the number of steps.
def run (s : State) : Scan (Tree Span) := fun c =>
  match h : step s c with
  | .error e d             => .error e d
  | .ok (.finished t) d    => .ok t d
  | .ok (.reading s) d     =>
    have : d.rest.length < c.rest.length := by
      have ⟨_, reads, pos⟩ := (step_consumes _).ok h
      have := reads.length_rest
      omega
    run s d
termination_by c => c.rest.length

theorem run_consumes (s : State) : (run s).Consumes 1 where
  ok := by
    intro c t d eq
    fun_induction run s c with
    | case1 => cases eq
    | case2 s c _ _ h => cases eq; exact (step_consumes _).ok h
    | case3 s c _ _ h _ ih =>
      have ⟨cs, reads, pos⟩ := (step_consumes _).ok h
      have ⟨ds, reads', _⟩ := ih eq
      exact ⟨cs ++ ds, reads.trans reads', by simp; omega⟩
  error := by
    intro c t d eq
    fun_induction run s c with
    | case1 s c _ _ h => cases eq; exact (step_consumes _).error h
    | case2 => cases eq
    | case3 s c _ _ h _ ih =>
      have ⟨cs, reads, _⟩ := (step_consumes _).ok h
      have ⟨ds, reads'⟩ := ih eq
      exact ⟨cs ++ ds, reads.trans reads'⟩

end State

namespace Scan

def template : Scan (Tree Span) := do
  let t ← State.run (.content [])
  blanks
  if ← atEnd then
    return t
  else
    throw .unexpected

theorem template_consumes : template.Consumes 1 :=
  (State.run_consumes _).bind fun _ => blanks_consumes.bind fun _ =>
  atEnd_consumes.bind fun _ => .ite (.pure _) (.throw _)

end Scan

namespace Cursor

-- The position of an error is where the cursor stopped.
def read (c : Cursor) : Except SyntaxError (Tree Span) × Cursor :=
  match Scan.template c with
  | .ok t d    => (.ok t, d)
  | .error e d => (.error ⟨e, d.position⟩, d)

def readings : Nat → Cursor → List (Except SyntaxError (Tree Span))
  | 0, _     => []
  | n + 1, c =>
    let (r, c) := c.read
    r :: readings n c

end Cursor

def Tree.parse (source : String) : Except SyntaxError (Tree Span) :=
  (Cursor.start source).read.1

end MarkupTemplate
