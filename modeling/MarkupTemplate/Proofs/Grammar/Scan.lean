import MarkupTemplate.Parser.Scan
import MarkupTemplate.Proofs.Grammar.Word

/-!
What the elementary scans read, and when they fail. `blanks_eq_ok_iff`, `name_eq_ok_iff` and
`literal_eq_ok_iff` name the text between two cursors, so that what a whole parser has read is put
together with `Cursor.Reads.trans`.
-/

namespace MarkupTemplate

theorem Cursor.isSome_past?_iff {s : String} {c : Cursor} :
    (c.past? s).isSome ↔ s.toList <+: c.rest := by
  rw [Option.isSome_iff_exists, List.prefix_iff_exists_append_eq]
  constructor
  · rintro ⟨d, eq⟩
    exact ⟨d.rest, (past?_eq_some_iff.mp eq).rest.symm⟩
  · rintro ⟨rest, eq⟩
    exact ⟨⟨_, rest⟩, past?_eq_some_iff.mpr ⟨eq.symm, rfl⟩⟩

namespace Cursor.Reads

variable {c d e : Cursor} {cs ds : List Char}

theorem append_iff : c.Reads (cs ++ ds) e ↔ ∃ d, c.Reads cs d ∧ d.Reads ds e where
  mp h := by
    refine ⟨⟨c.position + Bytes.length cs, ds ++ e.rest⟩, ⟨?_, rfl⟩, ⟨rfl, ?_⟩⟩
    · rw [h.rest, List.append_assoc]
    · rw [h.position, Bytes.length_append, Nat.add_assoc]
  mpr := fun ⟨_, h, g⟩ => h.trans g

theorem sign_not_isAlphabetic {s : Char} (h : c.Reads [s] d) (mem : s ∈ signs) :
    ¬Leads isAlphabetic c.rest := by
  simp [h.rest, not_isAlphabetic_of_mem_signs s mem]

theorem sign_not_isBlank {s : Char} (h : c.Reads [s] d) (mem : s ∈ signs) :
    ¬Leads isBlank c.rest := by
  simp [h.rest, not_isBlank_of_mem_signs s mem]

theorem blanks_not_isAlphabetic {b : Blanks} (h : c.Reads b.text d)
    (g : ¬Leads isAlphabetic d.rest) : ¬Leads isAlphabetic c.rest :=
  h.rest ▸ b.not_leads_isAlphabetic g

theorem gap_not_isAlphabetic {g : Gap} (h : c.Reads g.text d) : ¬Leads isAlphabetic c.rest :=
  h.rest ▸ g.not_leads_isAlphabetic _

theorem name_isAlphabetic {n : Name} (h : c.Reads n.text d) : Leads isAlphabetic c.rest :=
  h.rest ▸ n.leads_isAlphabetic _

-- Where one name ends and the next begins, the blanks in between are some.
theorem blanks_ne_nil {b : Blanks} (h : c.Reads b.text d) (ends : ¬Leads isAlphabetic c.rest)
    (begins : Leads isAlphabetic d.rest) : b.text ≠ [] := by
  intro eq
  have : d = c := (eq ▸ h).deterministic .refl
  exact ends (this ▸ begins)

theorem name_not_isBlank {n : Name} (h : c.Reads n.text d) : ¬Leads isBlank c.rest :=
  h.rest ▸ n.not_leads_isBlank _

end Cursor.Reads

namespace Scan

variable {α β : Type} {p : Scan α} {f : α → Scan β} {a a' : α} {b : β} {c d e : Cursor}
  {cause cause' : SyntaxError.Cause}

theorem bind_eq_of_ok (h : p c = .ok a d) : (p >>= f) c = f a d := by
  simp [Bind.bind, EStateM.bind, h]

theorem bind_eq_ok_iff : (p >>= f) c = .ok b e ↔ ∃ a d, p c = .ok a d ∧ f a d = .ok b e := by
  cases h : p c
  case ok    => simp [Bind.bind, EStateM.bind, h, and_assoc]
  case error => simp [Bind.bind, EStateM.bind, h]

theorem bind_eq_error_iff : (p >>= f) c = .error cause e ↔
    p c = .error cause e ∨ ∃ a d, p c = .ok a d ∧ f a d = .error cause e := by
  cases h : p c
  case ok    => simp [Bind.bind, EStateM.bind, h, and_assoc]
  case error => simp [Bind.bind, EStateM.bind, h]

theorem pure_eq_ok_iff : (pure a : Scan α) c = .ok a' d ↔ a' = a ∧ d = c := by
  simp [pure, EStateM.pure, eq_comm]

theorem pure_ne_error : (pure a : Scan α) c ≠ .error cause d := by
  simp [pure, EStateM.pure]

theorem throw_ne_ok : (throw cause : Scan α) c ≠ .ok a d :=
  nofun

theorem throw_eq_error_iff :
    (throw cause : Scan α) c = .error cause' d ↔ cause' = cause ∧ d = c where
  mp h := by
    cases h
    exact ⟨rfl, rfl⟩
  mpr := by
    rintro ⟨rfl, rfl⟩
    rfl

theorem blanks_eq_ok_iff {u : Unit} :
    blanks c = .ok u d ↔ ∃ b : Blanks, c.Reads b.text d ∧ ¬Leads isBlank d.rest where
  mp h := by
    cases h
    exact ⟨⟨_, fun _ => List.mem_takeWhile_imp⟩, Cursor.reads_skip _ _, Leads.not_dropWhile⟩
  mpr := by
    intro ⟨b, reads, ends⟩
    have eq : c.rest.takeWhile isBlank = b.text := by
      rw [reads.rest, Leads.takeWhile_append b.blank ends]
    rw [reads.deterministic (eq ▸ c.reads_skip isBlank)]
    rfl

theorem blanks_of_reads {b : Blanks} (reads : c.Reads b.text d) (ends : ¬Leads isBlank d.rest) :
    blanks c = .ok () d :=
  blanks_eq_ok_iff.mpr ⟨b, reads, ends⟩

theorem blanks_ne_error : blanks c ≠ .error cause d :=
  nofun

theorem name_eq_ok_iff {k : NameClass} {r : String × Span} :
    name k c = .ok r d ↔ ∃ n : Name, c.Reads n.text d ∧ ¬Leads isAlphabetic d.rest ∧
      r = (n.string, ⟨c.position, d.position⟩) where
  mp h := by
    simp only [name, k.accepts_eq] at h
    split at h
    case isTrue     => cases h
    case isFalse ne =>
      cases h
      have letters : ∀ x ∈ c.rest.takeWhile isAlphabetic, isAlphabetic x :=
        fun _ => List.mem_takeWhile_imp
      exact ⟨⟨_, letters, ne⟩, Cursor.reads_skip _ _, Leads.not_dropWhile, rfl⟩
  mpr := by
    rintro ⟨n, reads, ends, hr⟩
    have eq : c.rest.takeWhile isAlphabetic = n.text := by
      rw [reads.rest, Leads.takeWhile_append n.letters ends]
    have := reads.deterministic (eq ▸ c.reads_skip isAlphabetic)
    simp [name, k.accepts_eq, eq, n.nonempty, hr, this, Name.string]

theorem name_of_reads {k : NameClass} {n : Name} (reads : c.Reads n.text d)
    (ends : ¬Leads isAlphabetic d.rest) :
    name k c = .ok (n.string, ⟨c.position, d.position⟩) d :=
  name_eq_ok_iff.mpr ⟨n, reads, ends, rfl⟩

theorem name_eq_error_iff {k : NameClass} :
    name k c = .error cause d ↔ cause = .unnamed k ∧ d = c ∧ ¬Leads isAlphabetic c.rest := by
  have : c.rest.takeWhile isAlphabetic = [] ↔ ¬Leads isAlphabetic c.rest := by
    cases c.rest <;> simp [List.takeWhile_cons]
  simp only [name, k.accepts_eq]
  split
  case isTrue h  => simp [this.mp h, eq_comm]
  case isFalse h => simp [mt this.mpr h]

theorem literal_eq_ok_iff {s : String} {u : Unit} :
    literal s c = .ok u d ↔ c.Reads s.toList d := by
  rw [← Cursor.past?_eq_some_iff, literal]
  split <;> simp_all

theorem literal_of_reads {s : String} (reads : c.Reads s.toList d) : literal s c = .ok () d :=
  literal_eq_ok_iff.mpr reads

theorem literal_eq_error_iff {s : String} :
    literal s c = .error cause d ↔ cause = .missing s ∧ d = c ∧ ¬s.toList <+: c.rest := by
  rw [← Cursor.isSome_past?_iff, literal]
  split
  case h_1 h => simp [h]
  case h_2 h => simp [h, eq_comm]

theorem sees_eq_ok_iff {s : String} {b : Bool} :
    sees s c = .ok b d ↔ (b ↔ s.toList <+: c.rest) ∧ d = c := by
  rw [← Cursor.isSome_past?_iff, sees]
  cases (c.past? s).isSome <;> cases b <;> simp [eq_comm]

theorem atEnd_eq_ok_iff {b : Bool} : atEnd c = .ok b d ↔ (b ↔ c.rest = []) ∧ d = c := by
  rw [atEnd]
  cases c.rest <;> cases b <;> simp [eq_comm]

theorem position_ne_error : position c ≠ .error cause d :=
  nofun

theorem sees_ne_error {s : String} : sees s c ≠ .error cause d :=
  nofun

theorem atEnd_ne_error : atEnd c ≠ .error cause d :=
  nofun

theorem sees_of_reads {s : String} (reads : c.Reads s.toList d) : sees s c = .ok true c :=
  sees_eq_ok_iff.mpr ⟨by simp [reads.rest], rfl⟩

theorem sees_of_not {s : String} (h : ¬s.toList <+: c.rest) : sees s c = .ok false c :=
  sees_eq_ok_iff.mpr ⟨by simp [h], rfl⟩

theorem atEnd_of_ne_nil (h : c.rest ≠ []) : atEnd c = .ok false c :=
  atEnd_eq_ok_iff.mpr ⟨by simp [h], rfl⟩

end Scan
end MarkupTemplate
