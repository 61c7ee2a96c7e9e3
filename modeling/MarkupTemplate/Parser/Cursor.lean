import MarkupTemplate.Text.Bytes

/-!
A cursor into a source: how many bytes were read, and the text that is left. `c.Reads cs d` says
that reading `cs` leads from `c` to `d`.
-/

namespace MarkupTemplate

structure Cursor where
  position : Nat
  rest : List Char

namespace Cursor

def start (source : String) : Cursor :=
  ⟨0, source.toList⟩

structure Reads (c : Cursor) (read : List Char) (d : Cursor) : Prop where
  rest     : c.rest = read ++ d.rest
  position : d.position = c.position + Bytes.length read

namespace Reads

variable {c d e : Cursor} {cs ds : List Char}

theorem refl : c.Reads [] c :=
  ⟨rfl, rfl⟩

theorem trans (h : c.Reads cs d) (g : d.Reads ds e) : c.Reads (cs ++ ds) e where
  rest     := by rw [h.rest, g.rest, List.append_assoc]
  position := by rw [g.position, h.position, Bytes.length_append, Nat.add_assoc]

theorem length_rest (h : c.Reads cs d) : c.rest.length = cs.length + d.rest.length := by
  rw [h.rest, List.length_append]

theorem deterministic {d' : Cursor} (h : c.Reads cs d) (g : c.Reads cs d') : d = d' := by
  cases d
  cases d'
  have := h.rest.symm.trans g.rest
  have := h.position.trans g.position.symm
  simp_all

end Reads

-- Past all characters at the front that `p` accepts.
def skip (p : Char → Bool) (c : Cursor) : Cursor :=
  ⟨c.position + Bytes.length (c.rest.takeWhile p), c.rest.dropWhile p⟩

def past? (literal : String) (c : Cursor) : Option Cursor :=
  (literal.toList.isPrefixOf? c.rest).map (⟨c.position + literal.utf8ByteSize, ·⟩)

theorem reads_skip (p : Char → Bool) (c : Cursor) :
    c.Reads (c.rest.takeWhile p) (c.skip p) :=
  ⟨List.takeWhile_append_dropWhile.symm, rfl⟩

theorem isPrefixOf?_eq_some_iff {cs ds es : List Char} :
    cs.isPrefixOf? ds = some es ↔ ds = cs ++ es := by
  induction cs generalizing ds with
  | nil =>
    show some ds = some es ↔ ds = es
    simp
  | cons c cs ih =>
    cases ds with
    | nil =>
      show none = some es ↔ _
      simp
    | cons d ds =>
      show (if c == d then cs.isPrefixOf? ds else none) = some es ↔ _
      grind

theorem past?_eq_some_iff {literal : String} {c d : Cursor} :
    c.past? literal = some d ↔ c.Reads literal.toList d := by
  simp only [past?, Option.map_eq_some_iff, isPrefixOf?_eq_some_iff]
  constructor
  · rintro ⟨rest, h, rfl⟩
    exact ⟨h, by rw [Bytes.length_toList]⟩
  · intro h
    exact ⟨d.rest, h.rest, by rw [← Bytes.length_toList, ← h.position]⟩

end Cursor
end MarkupTemplate
