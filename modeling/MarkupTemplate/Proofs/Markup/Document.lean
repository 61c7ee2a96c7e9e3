import MarkupTemplate.Text.Alphabetic

/-!
Reading markup back. `Document.read` takes a page apart into its tags and the runs of text between
them, and knows nothing about templates: a run ends at the next `<`, and the value of an attribute
at the next `"`.
-/

namespace MarkupTemplate

structure Tag where
  closing : Bool
  name : String
  attributes : List (String × String)
deriving DecidableEq, Repr

-- The text before the first tag, and each tag with the text after it.
structure Document where
  text : List Char
  tags : List (Tag × List Char)
deriving DecidableEq, Repr

-- Runs of text go on up to the next tag, and values up to the next quote.
def isText (c : Char) : Bool :=
  c != '<'

def isQuoted (c : Char) : Bool :=
  c != '"'

namespace Tag

def readName (cs : List Char) : Option (String × List Char) :=
  let letters := cs.takeWhile isAlphabetic
  if letters = [] then none else some (.ofList letters, cs.dropWhile isAlphabetic)

def readValue : List Char → Option (String × List Char)
  | '=' :: '"' :: cs =>
    match cs.dropWhile isQuoted with
    | []        => none
    | _ :: rest => some (.ofList (cs.takeWhile isQuoted), rest)
  | _ => none

def readAttribute (cs : List Char) : Option ((String × String) × List Char) := do
  let (name, cs) ← readName cs
  let (value, cs) ← readValue cs
  return ((name, value), cs)

theorem length_readName {cs rest : List Char} {name : String}
    (h : readName cs = some (name, rest)) : rest.length ≤ cs.length := by
  simp only [readName, Option.ite_none_left_eq_some, Option.some.injEq, Prod.mk.injEq] at h
  exact h.2.2 ▸ (List.dropWhile_suffix _).length_le

theorem length_readValue {cs rest : List Char} {value : String}
    (h : readValue cs = some (value, rest)) : rest.length < cs.length := by
  rw [readValue.eq_def] at h
  split at h
  case h_1 cs =>
    have := (List.dropWhile_suffix isQuoted (l := cs)).length_le
    split at h
    case h_1 => cases h
    case h_2 eq =>
      cases h
      simp [eq] at this ⊢
      omega
  case h_2 => cases h

theorem length_readAttribute {cs rest : List Char} {a : String × String}
    (h : readAttribute cs = some (a, rest)) : rest.length < cs.length := by
  simp only [readAttribute, Option.bind_eq_bind, Option.bind_eq_some_iff] at h
  obtain ⟨⟨_, ds⟩, name, ⟨_, es⟩, value, h⟩ := h
  cases h
  exact Nat.lt_of_lt_of_le (length_readValue value) (length_readName name)

-- Attributes come as long as blanks do.
def readAttributes : List Char → Option (List (String × String) × List Char)
  | ' ' :: cs =>
    match h : readAttribute cs with
    | none           => none
    | some (a, rest) =>
      have := length_readAttribute h
      (readAttributes rest).map fun (as, rest) => (a :: as, rest)
  | cs => some ([], cs)
termination_by cs => cs.length

theorem length_readAttributes {cs rest : List Char} {as : List (String × String)}
    (h : readAttributes cs = some (as, rest)) : rest.length ≤ cs.length := by
  fun_induction readAttributes cs generalizing as with
  | case1 => cases h
  | case2 cs a rest' ha _ ih =>
    obtain ⟨⟨as', rest''⟩, h', eq⟩ := Option.map_eq_some_iff.mp h
    cases eq
    have := ih h'
    have := length_readAttribute ha
    simp
    omega
  | case3 => cases h; exact Nat.le_refl _

def readEnd (closing : Bool) (cs : List Char) : Option (Tag × List Char) := do
  let (name, cs) ← readName cs
  let (attributes, cs) ← readAttributes cs
  match cs with
  | '>' :: cs => return (⟨closing, name, attributes⟩, cs)
  | _         => none

-- What follows the sign `<`.
def read : List Char → Option (Tag × List Char)
  | '/' :: cs => readEnd true cs
  | cs        => readEnd false cs

theorem length_readEnd {closing : Bool} {cs rest : List Char} {t : Tag}
    (h : readEnd closing cs = some (t, rest)) : rest.length < cs.length := by
  simp only [readEnd, Option.bind_eq_bind, Option.bind_eq_some_iff] at h
  obtain ⟨⟨_, ds⟩, name, ⟨_, es⟩, attributes, h⟩ := h
  have := length_readName name
  have := length_readAttributes attributes
  split at h
  case h_1 => cases h; simp_all; omega
  case h_2 => cases h

theorem length_read {cs rest : List Char} {t : Tag} (h : read cs = some (t, rest)) :
    rest.length < cs.length := by
  rw [read.eq_def] at h
  split at h
  case h_1 => exact Nat.lt_succ_of_lt (length_readEnd h)
  case h_2 => exact length_readEnd h

end Tag

namespace Document

def readTags : List Char → Option (List (Tag × List Char))
  | []      => some []
  | _ :: cs =>
    match h : Tag.read cs with
    | none           => none
    | some (t, rest) =>
      have := Nat.lt_of_le_of_lt (List.dropWhile_suffix isText).length_le (Tag.length_read h)
      (readTags (rest.dropWhile isText)).map ((t, rest.takeWhile isText) :: ·)
termination_by cs => cs.length

def read (cs : List Char) : Option Document :=
  (readTags (cs.dropWhile isText)).map (⟨cs.takeWhile isText, ·⟩)

end Document
end MarkupTemplate
