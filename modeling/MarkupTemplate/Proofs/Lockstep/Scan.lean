import MarkupTemplate.Parser.State
import MarkupTemplate.Proofs.Grammar.Scan

/-!
Two cursors that read side by side. `Lockstep φ r` says of a relation between cursors that it lasts
when both of them read one sign, and when both read all the blanks in front of them, however many
these are. Then a scan does the same from either cursor, with all positions moved by `φ`.
-/

namespace MarkupTemplate

-- `φ` takes the positions in one source to those in another.
def Span.move (φ : Nat → Nat) (s : Span) : Span :=
  ⟨φ s.start, φ s.stop⟩

-- Text without blanks.
def Solid (cs : List Char) : Prop :=
  ∀ x ∈ cs, isBlank x = false

instance (cs : List Char) : Decidable (Solid cs) :=
  decidable_of_iff (cs.all fun x => !isBlank x) (by simp [Solid])

theorem IsName.solid {s : String} (h : IsName s) : Solid s.toList :=
  fun x hx => not_isBlank_of_isAlphabetic (h.2 x hx)

theorem IsName.solid_closing {tag : String} (h : IsName tag) :
    Solid ("</" ++ tag ++ ">").toList := by
  have front : Solid ['<', '/'] := by decide
  have back : Solid ['>'] := by decide
  intro x hx
  simp only [String.toList_append, List.mem_append] at hx
  grind [Solid, h.solid]

namespace Cursor

variable {c d c' : Cursor}

theorem skip_of_not_leads {p : Char → Bool} (h : ¬Leads p c.rest) : c.skip p = c := by
  obtain ⟨position, rest⟩ := c
  cases rest
  case nil  => rfl
  case cons => simp_all [skip]

theorem skip_append {p : Char → Bool} {cs ds : List Char} (h : ∀ x ∈ cs, p x) (ends : ¬Leads p ds)
    (n : Nat) : skip p ⟨n, cs ++ ds⟩ = ⟨n + Bytes.length cs, ds⟩ := by
  simp only [skip, Leads.takeWhile_append h ends, Leads.dropWhile_append h ends]

-- What is in front of both cursors: nothing, some blanks, or the same sign.
inductive Abreast (r : Cursor → Cursor → Prop) (c d : Cursor) : Prop where
  | ended (left : c.rest = []) (right : d.rest = [])
  | blanks (left : Leads isBlank c.rest) (right : Leads isBlank d.rest)
      (next : r (c.skip isBlank) (d.skip isBlank))
  | sign {x : Char} {c' d' : Cursor} (solid : isBlank x = false) (left : c.Reads [x] c')
      (right : d.Reads [x] d') (next : r c' d')

structure Lockstep (φ : Nat → Nat) (r : Cursor → Cursor → Prop) : Prop where
  position : ∀ {c d}, r c d → d.position = φ c.position
  abreast  : ∀ {c d}, r c d → Abreast r c d

namespace Lockstep

variable {φ : Nat → Nat} {r : Cursor → Cursor → Prop} {cs : List Char}

theorem rest_eq_nil_iff (h : Lockstep φ r) (related : r c d) : c.rest = [] ↔ d.rest = [] := by
  cases h.abreast related
  case ended left right   => simp [left, right]
  case sign left right _  => simp [left.rest, right.rest]
  case blanks left right _ =>
    have ⟨_, _, eq, _⟩ := left.exists_cons
    have ⟨_, _, eq', _⟩ := right.exists_cons
    simp [eq, eq']

theorem leads_iff {p : Char → Bool} (h : Lockstep φ r) (solid : ∀ x, p x → isBlank x = false)
    (related : r c d) : Leads p c.rest ↔ Leads p d.rest := by
  cases h.abreast related
  case ended left right   => simp [left, right]
  case sign left right _  => simp [left.rest, right.rest]
  case blanks left right _ =>
    have ⟨x, _, eq, hx⟩ := left.exists_cons
    have ⟨y, _, eq', hy⟩ := right.exists_cons
    have other := mt (solid x)
    have other' := mt (solid y)
    simp_all

theorem skip_blanks (h : Lockstep φ r) (related : r c d) :
    r (c.skip isBlank) (d.skip isBlank) := by
  cases h.abreast related
  case blanks next => exact next
  case ended left right =>
    rw [skip_of_not_leads (left ▸ Leads.nil), skip_of_not_leads (right ▸ Leads.nil)]
    exact related
  case sign solid left right _ =>
    have ends : ¬Leads isBlank c.rest := by simp [left.rest, solid]
    have ends' : ¬Leads isBlank d.rest := by simp [right.rest, solid]
    rw [skip_of_not_leads ends, skip_of_not_leads ends']
    exact related

-- Where blanks come next no solid text does.
theorem not_prefix_of_leads {x : Char} (solid : isBlank x = false) (h : Leads isBlank c.rest) :
    ¬x :: cs <+: c.rest := by
  have ⟨y, _, eq, hy⟩ := h.exists_cons
  rw [eq, List.cons_prefix_cons]
  intro ⟨same, _⟩
  simp [← same, solid] at hy

theorem prefix_iff (h : Lockstep φ r) (solid : Solid cs) (related : r c d) :
    cs <+: c.rest ↔ cs <+: d.rest := by
  induction cs generalizing c d with
  | nil => simp
  | cons x cs ih =>
    have ⟨first, others⟩ := List.forall_mem_cons.mp solid
    cases h.abreast related
    case ended left right       => simp [left, right]
    case sign left right next   => simp [left.rest, right.rest, ih others next]
    case blanks left right _    => simp [not_prefix_of_leads first left, not_prefix_of_leads first right]

theorem exists_reads (h : Lockstep φ r) (solid : Solid cs) (related : r c d)
    (reads : c.Reads cs c') : ∃ d', d.Reads cs d' ∧ r c' d' := by
  induction cs generalizing c d with
  | nil =>
    have eq : c' = c := reads.deterministic .refl
    exact ⟨d, .refl, eq ▸ related⟩
  | cons x cs ih =>
    have ⟨first, others⟩ := List.forall_mem_cons.mp solid
    have reads : c.Reads ([x] ++ cs) c' := reads
    have ⟨m, sign, reads⟩ := Reads.append_iff.mp reads
    cases h.abreast related
    case ended left _    => simp [sign.rest] at left
    case blanks left _ _ => simp [sign.rest, first] at left
    case sign y c₁ d₁ solid' left right next =>
      have same : y = x := by
        have := left.rest.symm.trans sign.rest
        simp_all
      cases same
      cases left.deterministic sign
      have ⟨d', reads', related'⟩ := ih others next reads
      exact ⟨d', right.trans reads', related'⟩

end Lockstep
end Cursor

namespace Scan

open Cursor (Lockstep)

variable {α β γ δ : Type} {r : Cursor → Cursor → Prop} {v : α → β → Prop} {w : γ → δ → Prop}

-- From cursors that `r` relates both scans come to results that `v` relates, or both to one error.
structure InStep (r : Cursor → Cursor → Prop) (v : α → β → Prop) (p : Scan α) (q : Scan β) :
    Prop where
  ok    : ∀ {c d a c'}, r c d → p c = .ok a c' → ∃ b d', q d = .ok b d' ∧ v a b ∧ r c' d'
  error : ∀ {c d e c'}, r c d → p c = .error e c' → ∃ d', q d = .error e d' ∧ r c' d'

namespace InStep

variable {p : Scan α} {q : Scan β}

theorem pure {a : α} {b : β} (h : v a b) : InStep r v (Pure.pure a) (Pure.pure b) where
  ok related eq := by
    cases eq
    exact ⟨b, _, rfl, h, related⟩
  error _ eq := absurd eq pure_ne_error

theorem throw (e : SyntaxError.Cause) :
    InStep r v (MonadExcept.throw e : Scan α) (MonadExcept.throw e : Scan β) where
  ok _ eq := absurd eq throw_ne_ok
  error related eq := by
    cases eq
    exact ⟨_, rfl, related⟩

theorem bind {f : α → Scan γ} {g : β → Scan δ} (h : InStep r v p q)
    (hf : ∀ a b, v a b → InStep r w (f a) (g b)) : InStep r w (p >>= f) (q >>= g) where
  ok := by
    intro c d b c' related eq
    have ⟨a, m, first, second⟩ := bind_eq_ok_iff.mp eq
    have ⟨a', m', first', value, related'⟩ := h.ok related first
    rw [bind_eq_of_ok first']
    exact (hf a a' value).ok related' second
  error := by
    intro c d e c' related eq
    cases bind_eq_error_iff.mp eq
    case inl failed =>
      have ⟨d', failed', related'⟩ := h.error related failed
      exact ⟨d', bind_eq_error_iff.mpr (.inl failed'), related'⟩
    case inr eq =>
      have ⟨a, m, first, second⟩ := eq
      have ⟨a', m', first', value, related'⟩ := h.ok related first
      rw [bind_eq_of_ok first']
      exact (hf a a' value).error related' second

theorem after {p q : Scan α} {f : α → Scan γ} {g : α → Scan δ} (h : InStep r Eq p q)
    (hf : ∀ a, InStep r w (f a) (g a)) : InStep r w (p >>= f) (q >>= g) :=
  h.bind fun a _ eq => eq ▸ hf a

theorem ite {p' : Scan α} {q' : Scan β} {P : Prop} [Decidable P] (h : InStep r v p q)
    (h' : InStep r v p' q') : InStep r v (if P then p else p') (if P then q else q') := by
  split
  · exact h
  · exact h'

end InStep

section

variable {φ : Nat → Nat} (h : Lockstep φ r)

include h

theorem position_inStep : InStep r (fun p q => q = φ p) position position where
  ok related eq := by
    cases eq
    exact ⟨_, _, rfl, h.position related, related⟩
  error _ eq := absurd eq position_ne_error

theorem blanks_inStep : InStep r Eq blanks blanks where
  ok related eq := by
    cases eq
    exact ⟨_, _, rfl, rfl, h.skip_blanks related⟩
  error _ eq := absurd eq blanks_ne_error

theorem atEnd_inStep : InStep r Eq atEnd atEnd where
  ok related eq := by
    have ⟨last, here⟩ := atEnd_eq_ok_iff.mp eq
    cases here
    exact ⟨_, _, atEnd_eq_ok_iff.mpr ⟨last.trans (h.rest_eq_nil_iff related), rfl⟩, rfl, related⟩
  error _ eq := absurd eq atEnd_ne_error

theorem sees_inStep {s : String} (solid : Solid s.toList) : InStep r Eq (sees s) (sees s) where
  ok related eq := by
    have ⟨begins, here⟩ := sees_eq_ok_iff.mp eq
    cases here
    exact ⟨_, _, sees_eq_ok_iff.mpr ⟨begins.trans (h.prefix_iff solid related), rfl⟩, rfl, related⟩
  error _ eq := absurd eq sees_ne_error

theorem literal_inStep {s : String} (solid : Solid s.toList) :
    InStep r Eq (literal s) (literal s) where
  ok related eq := by
    have ⟨d', reads, related'⟩ := h.exists_reads solid related (literal_eq_ok_iff.mp eq)
    exact ⟨_, d', literal_of_reads reads, rfl, related'⟩
  error related eq := by
    have ⟨cause, here, other⟩ := literal_eq_error_iff.mp eq
    cases here
    have other' := mt (h.prefix_iff solid related).mpr other
    exact ⟨_, literal_eq_error_iff.mpr ⟨cause, rfl, other'⟩, related⟩

theorem name_inStep (k : NameClass) :
    InStep r (fun a b => IsName a.1 ∧ b = (a.1, a.2.move φ)) (name k) (name k) where
  ok related eq := by
    have ⟨n, reads, ends, value⟩ := name_eq_ok_iff.mp eq
    have solid : Solid n.text := fun x hx => not_isBlank_of_isAlphabetic (n.letters x hx)
    have ⟨d', reads', related'⟩ := h.exists_reads solid related reads
    have ends' := mt (h.leads_iff (fun _ => not_isBlank_of_isAlphabetic) related').mpr ends
    refine ⟨_, d', name_of_reads reads' ends', ⟨value ▸ n.isName, ?_⟩, related'⟩
    simp [value, Span.move, h.position related, h.position related']
  error related eq := by
    have ⟨cause, here, other⟩ := name_eq_error_iff.mp eq
    cases here
    have other' := mt (h.leads_iff (fun _ => not_isBlank_of_isAlphabetic) related).mpr other
    exact ⟨_, name_eq_error_iff.mpr ⟨cause, rfl, other'⟩, related⟩

end

end Scan
end MarkupTemplate
