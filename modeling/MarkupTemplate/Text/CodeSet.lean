/-!
Sets of characters given by inclusive ranges of code points, the form in which character
properties are tabled. `contains_clip` says that clipping a set to a window keeps exactly the
members inside the window, and `SeparatedFrom.clip` that the ranges stay maximal runs.
-/

namespace MarkupTemplate

structure CodeRange where
  first : Nat
  last : Nat
deriving DecidableEq, Repr

namespace CodeRange

def contains (r : CodeRange) (n : Nat) : Bool :=
  r.first ≤ n && n ≤ r.last

theorem contains_iff {r : CodeRange} {n : Nat} :
    r.contains n ↔ r.first ≤ n ∧ n ≤ r.last := by
  simp [contains]

-- The part of a range inside the half-open window `start … stop`, if there is any.
def clip (start stop : Nat) (r : CodeRange) : Option CodeRange :=
  let first := max r.first start
  let last := min (r.last + 1) stop
  if first < last then some ⟨first, last - 1⟩ else none

theorem clip_eq_some_iff {start stop : Nat} {r q : CodeRange} :
    r.clip start stop = some q ↔
      q.first = max r.first start ∧ q.last + 1 = min (r.last + 1) stop ∧ q.first ≤ q.last := by
  cases q
  simp only [clip]
  split <;> simp <;> omega

end CodeRange

-- Membership does not depend on the order of the ranges. The tables list them in ascending order.
abbrev CodeSet := List CodeRange

namespace CodeSet

def contains (s : CodeSet) (n : Nat) : Bool :=
  s.any (·.contains n)

theorem contains_iff {s : CodeSet} {n : Nat} :
    contains s n ↔ ∃ r ∈ s, r.first ≤ n ∧ n ≤ r.last := by
  simp [contains, CodeRange.contains_iff]

def clip (s : CodeSet) (start stop : Nat) : CodeSet :=
  s.filterMap (·.clip start stop)

theorem contains_clip {s : CodeSet} {start stop n : Nat} :
    contains (clip s start stop) n ↔ contains s n ∧ start ≤ n ∧ n < stop := by
  simp only [contains_iff, clip, List.mem_filterMap, CodeRange.clip_eq_some_iff]
  constructor
  · rintro ⟨q, ⟨r, hr, h⟩, hq⟩
    exact ⟨⟨r, hr, by omega⟩, by omega⟩
  · rintro ⟨⟨r, hr, h⟩, hn⟩
    exact ⟨⟨max r.first start, min (r.last + 1) stop - 1⟩, ⟨r, hr, by simp; omega⟩,
      by simp; omega⟩

-- The ranges start at `n` or later, each holds something, and each next one starts only after a
-- gap. Ranges of such a set are the maximal runs of its members.
def SeparatedFrom (n : Nat) : CodeSet → Prop
  | [] => True
  | r :: s => n ≤ r.first ∧ r.first ≤ r.last ∧ SeparatedFrom (r.last + 2) s

abbrev Separated (s : CodeSet) : Prop :=
  SeparatedFrom 0 s

instance decidableSeparatedFrom (n : Nat) : (s : CodeSet) → Decidable (SeparatedFrom n s)
  | [] => inferInstanceAs (Decidable True)
  | r :: s =>
    have := decidableSeparatedFrom (r.last + 2) s
    inferInstanceAs (Decidable (_ ∧ _ ∧ _))

theorem SeparatedFrom.weaken {m n : Nat} (le : m ≤ n) : {s : CodeSet} → SeparatedFrom n s →
    SeparatedFrom m s
  | [], _ => trivial
  | _ :: _, ⟨first, rest⟩ => ⟨Nat.le_trans le first, rest⟩

theorem SeparatedFrom.clip {start stop n : Nat} : {s : CodeSet} → SeparatedFrom n s →
    SeparatedFrom n (CodeSet.clip s start stop)
  | [], _ => trivial
  | r :: s, ⟨first, nonempty, rest⟩ => by
    simp only [CodeSet.clip, List.filterMap_cons]
    split
    case h_1 => exact rest.clip.weaken (by omega)
    case h_2 q h =>
      rw [CodeRange.clip_eq_some_iff] at h
      exact ⟨by omega, h.2.2, rest.clip.weaken (by omega)⟩

end CodeSet
end MarkupTemplate
