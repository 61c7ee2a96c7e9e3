import MarkupTemplate.Source.Span
import MarkupTemplate.Text.Bytes

/-!
Spans as stretches of a source. `s.Covers source text` says that `text` is what `source` reads from
the start of `s` to its end. `InOrder` is about spans that lie one after the other.
-/

namespace MarkupTemplate

namespace Span

def Covers (s : Span) (source text : String) : Prop :=
  ∃ before after : String, source = before ++ text ++ after ∧
    s.start = before.utf8ByteSize ∧ s.stop = (before ++ text).utf8ByteSize

-- Both ends are places between two characters of the source, and there is something in between.
structure Fits (s : Span) (source : String) : Prop where
  start_lt_stop : s.start < s.stop
  stop_le       : s.stop ≤ source.utf8ByteSize
  start_valid   : (⟨s.start⟩ : String.Pos.Raw).IsValid source
  stop_valid    : (⟨s.stop⟩ : String.Pos.Raw).IsValid source

def Before (s t : Span) : Prop :=
  s.stop ≤ t.start

def Apart (s t : Span) : Prop :=
  s.Before t ∨ t.Before s

-- Strictly, so that neither end is shared.
def Inside (s t : Span) : Prop :=
  t.start < s.start ∧ s.stop < t.stop

variable {s : Span} {source text : String}

theorem Covers.length_eq (h : s.Covers source text) : s.stop = s.start + text.utf8ByteSize := by
  have ⟨_, _, _, start, stop⟩ := h
  rw [start, stop, String.utf8ByteSize_append]

theorem Covers.fits (h : s.Covers source text) (ne : text ≠ "") : s.Fits source := by
  have ⟨before, after, split, start, stop⟩ := h
  have pos : 0 < text.utf8ByteSize := by
    apply Nat.pos_of_ne_zero
    simpa using ne
  have length := h.length_eq
  have size := congrArg String.utf8ByteSize split
  simp only [String.utf8ByteSize_append] at size
  refine ⟨by omega, by omega, ?_, ?_⟩ <;> apply String.Pos.Raw.isValid_iff_exists_append.mpr
  case refine_1 =>
    exact ⟨before, text ++ after, by rw [split, String.append_assoc],
      by simp [start, String.rawEndPos]⟩
  case refine_2 => exact ⟨before ++ text, after, split, by simp [stop, String.rawEndPos]⟩

-- The spans lie between `p` and `q`, each one behind those before it.
def InOrder : Nat → List Span → Nat → Prop
  | p, [], q      => p ≤ q
  | p, s :: ss, q => p ≤ s.start ∧ s.start < s.stop ∧ InOrder s.stop ss q

namespace InOrder

variable {p p' q q' : Nat} {ss : List Span}

theorem le : {p : Nat} → {ss : List Span} → InOrder p ss q → p ≤ q
  | _, [], h     => h
  | _, _ :: _, h => by
    have := h.2.2.le
    have := h.1
    have := h.2.1
    omega

theorem weaken (h : InOrder p ss q) (hp : p' ≤ p) (hq : q ≤ q') : InOrder p' ss q' := by
  induction ss generalizing p p' with
  | nil => exact Nat.le_trans hp (Nat.le_trans h hq)
  | cons s ss ih =>
    have ⟨first, nonempty, rest⟩ := h
    exact ⟨Nat.le_trans hp first, nonempty, ih rest (Nat.le_refl _)⟩

theorem within (h : InOrder p ss q) : ∀ s ∈ ss, p ≤ s.start ∧ s.stop ≤ q := by
  induction ss generalizing p with
  | nil => exact nofun
  | cons s ss ih =>
    have ⟨first, nonempty, rest⟩ := h
    refine List.forall_mem_cons.mpr ⟨⟨first, rest.le⟩, fun t ht => ?_⟩
    have := ih rest t ht
    omega

theorem append {r : Nat} {ts : List Span} (h : InOrder p ss q) (g : InOrder q ts r) :
    InOrder p (ss ++ ts) r := by
  induction ss generalizing p with
  | nil => exact g.weaken h (Nat.le_refl _)
  | cons s ss ih =>
    have ⟨first, nonempty, rest⟩ := h
    exact ⟨first, nonempty, ih rest⟩

theorem pairwise (h : InOrder p ss q) : ss.Pairwise Before := by
  induction ss generalizing p with
  | nil => exact .nil
  | cons s ss ih =>
    have ⟨_, _, rest⟩ := h
    exact .cons (fun t ht => (rest.within t ht).1) (ih rest)

end InOrder
end Span

-- The same in terms of characters: `cs` is found at byte position `p`.
def StandsAt (source : String) (p : Nat) (cs : List Char) : Prop :=
  ∃ before after, source.toList = before ++ cs ++ after ∧ p = Bytes.length before

namespace StandsAt

variable {source : String} {p : Nat} {cs ds : List Char}

theorem left (h : StandsAt source p (cs ++ ds)) : StandsAt source p cs := by
  have ⟨before, after, text, position⟩ := h
  exact ⟨before, ds ++ after, by simp [text], position⟩

theorem right (h : StandsAt source p (cs ++ ds)) : StandsAt source (p + Bytes.length cs) ds := by
  have ⟨before, after, text, position⟩ := h
  exact ⟨before ++ cs, after, by simp [text], by simp [position]⟩

theorem covers (h : StandsAt source p cs) :
    Span.Covers ⟨p, p + Bytes.length cs⟩ source (.ofList cs) := by
  have ⟨before, after, text, position⟩ := h
  refine ⟨.ofList before, .ofList after, ?_, ?_, ?_⟩
  · rw [← String.ofList_append, ← String.ofList_append, ← text, String.ofList_toList]
  · rw [Bytes.utf8ByteSize_ofList, position]
  · rw [← String.ofList_append, Bytes.utf8ByteSize_ofList, Bytes.length_append, position]

end StandsAt
end MarkupTemplate
