import Mathlib.Data.List.TakeWhile
import MarkupTemplate.Text.Name

/-!
The words of the grammar: runs of blanks and names. Neither says where it ends, so each comes
with what may follow it: a name goes on with every further letter, and blanks with every further
blank.
-/

namespace MarkupTemplate

theorem not_isBlank_of_isAlphabetic {c : Char} (h : isAlphabetic c) : isBlank c = false := by
  cases hb : isBlank c
  case false => rfl
  case true  => simp [not_isAlphabetic_of_isBlank hb] at h

-- The text goes on with a character that `p` accepts.
def Leads (p : Char → Bool) (cs : List Char) : Prop :=
  ∃ c ∈ cs.head?, p c

instance (p : Char → Bool) (cs : List Char) : Decidable (Leads p cs) :=
  decidable_of_iff (cs.head?.any p) (by cases cs <;> simp [Leads])

namespace Leads

variable {p q : Char → Bool} {c : Char} {cs ds : List Char}

@[simp]
theorem nil : ¬Leads p [] := by
  simp [Leads]

@[simp]
theorem cons_iff : Leads p (c :: cs) ↔ p c := by
  simp [Leads]

theorem of_all (h : ∀ c ∈ cs, p c) (ne : cs ≠ []) (ds : List Char) : Leads p (cs ++ ds) := by
  cases cs
  case nil       => contradiction
  case cons c cs => simpa using h c

theorem exists_cons (h : Leads p cs) : ∃ c ds, cs = c :: ds ∧ p c := by
  cases cs
  case nil       => exact absurd h nil
  case cons c cs => exact ⟨c, cs, rfl, cons_iff.mp h⟩

theorem append (h : Leads p cs) : Leads p (cs ++ ds) := by
  have ⟨c, es, eq, hc⟩ := h.exists_cons
  simpa [eq] using hc

theorem not_append (h : ∀ c ∈ cs, p c = false) (g : ¬Leads p ds) : ¬Leads p (cs ++ ds) := by
  cases cs
  case nil       => exact g
  case cons c cs => simp [h c]

theorem takeWhile_append (h : ∀ c ∈ cs, p c) (g : ¬Leads p ds) : (cs ++ ds).takeWhile p = cs := by
  rw [List.takeWhile_append_of_pos h]
  cases ds
  case nil       => simp
  case cons d ds => simp_all

theorem dropWhile_append (h : ∀ c ∈ cs, p c) (g : ¬Leads p ds) : (cs ++ ds).dropWhile p = ds := by
  rw [List.dropWhile_append_of_pos h]
  cases ds
  case nil       => rfl
  case cons d ds => simp_all

theorem not_dropWhile : ¬Leads p (cs.dropWhile p) := by
  induction cs with
  | nil => simp
  | cons c cs ih =>
    rw [List.dropWhile_cons]
    split
    case isTrue    => exact ih
    case isFalse h => simpa using h

theorem exists_append (p : Char → Bool) (cs : List Char) :
    ∃ front rest, cs = front ++ rest ∧ (∀ c ∈ front, p c) ∧ ¬Leads p rest :=
  ⟨cs.takeWhile p, cs.dropWhile p, List.takeWhile_append_dropWhile.symm,
    fun _ => List.mem_takeWhile_imp, not_dropWhile⟩

end Leads

-- The characters that stand for themselves. Each ends a name and a run of blanks.
def signs : List Char :=
  ['{', '}', '=', '<', '>', '/']

theorem not_isAlphabetic_of_mem_signs : ∀ c ∈ signs, isAlphabetic c = false := by
  have all : signs.all fun c => !isAlphabetic c := by decide +kernel
  simpa using all

theorem not_isBlank_of_mem_signs : ∀ c ∈ signs, isBlank c = false := by
  have all : signs.all fun c => !isBlank c := by decide
  simpa using all

structure Blanks where
  text : List Char
  blank : ∀ c ∈ text, isBlank c

def IsName (s : String) : Prop :=
  s.toList ≠ [] ∧ ∀ c ∈ s.toList, isAlphabetic c

-- Between two words that may both be letters nothing less than one blank will do.
structure Gap extends Blanks where
  nonempty : text ≠ []

structure Name where
  text : List Char
  letters : ∀ c ∈ text, isAlphabetic c
  nonempty : text ≠ []

namespace Blanks

variable {cs : List Char}

def none : Blanks :=
  ⟨[], nofun⟩

@[simp]
theorem text_none : none.text = [] :=
  rfl

def append (b b' : Blanks) : Blanks where
  text  := b.text ++ b'.text
  blank := by simpa [or_imp, forall_and] using ⟨b.blank, b'.blank⟩

@[simp]
theorem text_append (b b' : Blanks) : (b.append b').text = b.text ++ b'.text :=
  rfl

theorem exists_append (cs : List Char) :
    ∃ (b : Blanks) (rest : List Char), cs = b.text ++ rest ∧ ¬Leads isBlank rest := by
  have ⟨front, rest, split, blank, ends⟩ := Leads.exists_append isBlank cs
  exact ⟨⟨front, blank⟩, rest, split, ends⟩

theorem not_leads_isAlphabetic (b : Blanks) (h : ¬Leads isAlphabetic cs) :
    ¬Leads isAlphabetic (b.text ++ cs) :=
  Leads.not_append (fun c hc => not_isAlphabetic_of_isBlank (b.blank c hc)) h

end Blanks

namespace Gap

def space : Gap where
  text     := [' ']
  blank    := List.all_eq_true.mp (by decide)
  nonempty := by decide

@[simp]
theorem text_space : space.text = [' '] :=
  rfl

-- One blank more after some blanks.
def after (b : Blanks) : Gap where
  toBlanks := b.append space.toBlanks
  nonempty := by simp

@[simp]
theorem text_after (b : Blanks) : (after b).text = b.text ++ [' '] :=
  rfl

theorem exists_append {cs : List Char} (h : Leads isBlank cs) :
    ∃ (g : Gap) (rest : List Char), cs = g.text ++ rest ∧ ¬Leads isBlank rest := by
  have ⟨b, rest, split, ends⟩ := Blanks.exists_append cs
  have nonempty : b.text ≠ [] := by
    intro none
    rw [split, none] at h
    exact ends h
  exact ⟨⟨b, nonempty⟩, rest, split, ends⟩

theorem not_leads_isAlphabetic (g : Gap) (cs : List Char) : ¬Leads isAlphabetic (g.text ++ cs) := by
  have ⟨c, ds, eq, h⟩ := (Leads.of_all g.blank g.nonempty cs).exists_cons
  simp [eq, not_isAlphabetic_of_isBlank h]

end Gap

namespace Name

variable {cs : List Char}

def string (n : Name) : String :=
  .ofList n.text

@[simp]
theorem toList_string (n : Name) : n.string.toList = n.text := by
  simp [string]

theorem isName (n : Name) : IsName n.string := by
  rw [IsName, toList_string]
  exact ⟨n.nonempty, n.letters⟩

-- The words that the grammar itself writes. To the scans they are names like any other.
def for_ : Name where
  text     := ['f', 'o', 'r']
  letters  := List.all_eq_true.mp (by decide +kernel)
  nonempty := by decide

def in_ : Name where
  text     := ['i', 'n']
  letters  := List.all_eq_true.mp (by decide +kernel)
  nonempty := by decide

def end_ : Name where
  text     := ['e', 'n', 'd']
  letters  := List.all_eq_true.mp (by decide +kernel)
  nonempty := by decide

theorem string_in_ne_for : in_.string ≠ "for" := by
  decide

theorem leads_isAlphabetic (n : Name) (cs : List Char) : Leads isAlphabetic (n.text ++ cs) :=
  Leads.of_all n.letters n.nonempty cs

theorem not_leads_of (n : Name) {p : Char → Bool} (h : ∀ c, isAlphabetic c → p c = false)
    (cs : List Char) : ¬Leads p (n.text ++ cs) := by
  have ⟨c, ds, eq, hc⟩ := (n.leads_isAlphabetic cs).exists_cons
  simp [eq, h c hc]

theorem not_leads_isBlank (n : Name) (cs : List Char) : ¬Leads isBlank (n.text ++ cs) :=
  n.not_leads_of (fun _ => not_isBlank_of_isAlphabetic) cs

theorem string_inj {n m : Name} : n.string = m.string ↔ n = m where
  mp h := by
    have eq := congrArg String.toList h
    cases n
    cases m
    simpa using eq
  mpr h := h ▸ rfl

theorem string_eq_for_iff {n : Name} : n.string = "for" ↔ n = for_ :=
  string_inj (m := for_)

theorem string_eq_end_iff {n : Name} : n.string = "end" ↔ n = end_ :=
  string_inj (m := end_)

end Name

theorem IsName.exists_name {s : String} (h : IsName s) : ∃ n : Name, n.string = s :=
  ⟨⟨s.toList, h.2, h.1⟩, String.ofList_toList⟩

end MarkupTemplate
