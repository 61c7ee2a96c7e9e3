import MarkupTemplate.Proofs.Grammar.Acceptance
import MarkupTemplate.Proofs.Lockstep.Run

/-!
Blanks can stand for one another. Where a source has some, it may have any others: a tree keeps its
shape, and an error its cause and its place in the text. For this it is enough to compare the source
with the one that has a single space for each run of blanks (`parse_squeezed`).
-/

namespace MarkupTemplate

variable {x : Char} {cs ds : List Char}

-- One space in the place of each run of blanks, where the run ends.
def squeeze : List Char → List Char
  | []      => []
  | x :: cs =>
    if isBlank x = false then x :: squeeze cs
    else if Leads isBlank cs then squeeze cs
    else ' ' :: squeeze cs

def squeezed (s : String) : String :=
  .ofList (squeeze s.toList)

-- Blanks are replaced by others, but neither are there more gaps between the words nor fewer.
inductive Respaced : List Char → List Char → Prop where
  | nil : Respaced [] []
  | cons (x : Char) {cs ds : List Char} : Respaced cs ds → Respaced (x :: cs) (x :: ds)
  | gap (g g' : Gap) {cs ds : List Char} :
    Respaced cs ds → Respaced (g.text ++ cs) (g'.text ++ ds)

-- No run of blanks goes on from the first text to the second.
def Parted (cs ds : List Char) : Prop :=
  Leads isBlank cs.reverse → ¬Leads isBlank ds

theorem squeeze_solid (h : isBlank x = false) : squeeze (x :: cs) = x :: squeeze cs := by
  simp [squeeze, h]

theorem squeeze_blank (h : isBlank x) :
    squeeze (x :: cs) = if Leads isBlank cs then squeeze cs else ' ' :: squeeze cs := by
  simp [squeeze, h]

theorem squeeze_gap (g : Gap) :
    squeeze (g.text ++ cs) = if Leads isBlank cs then squeeze cs else ' ' :: squeeze cs := by
  obtain ⟨⟨text, blank⟩, nonempty⟩ := g
  induction text with
  | nil => exact absurd rfl nonempty
  | cons x text ih =>
    have ⟨first, others⟩ := List.forall_mem_cons.mp blank
    cases text
    case nil         => exact squeeze_blank first
    case cons y text =>
      have more : Leads isBlank (y :: text ++ cs) := Leads.of_all others nofun cs
      rw [List.cons_append, squeeze_blank first, if_pos more]
      exact ih others nofun

theorem leads_squeeze_iff : Leads isBlank (squeeze cs) ↔ Leads isBlank cs := by
  induction cs with
  | nil => rfl
  | cons x cs ih =>
    cases h : isBlank x
    case false => simp [squeeze_solid h]
    case true  =>
      have space : isBlank ' ' := by decide
      rw [squeeze_blank h]
      split
      case isTrue more => simp [ih, more, h]
      case isFalse     => simp [space, h]

theorem Parted.tail (h : Parted (x :: cs) ds) : Parted cs ds := by
  intro last
  exact h (by simpa using last.append)

theorem Parted.leads_append_iff (h : Parted (x :: cs) ds) (hx : isBlank x) :
    Leads isBlank (cs ++ ds) ↔ Leads isBlank cs := by
  cases cs
  case cons => simp
  case nil  =>
    have ends : ¬Leads isBlank ds := h (by simp [hx])
    simp [ends]

theorem squeeze_append (h : Parted cs ds) : squeeze (cs ++ ds) = squeeze cs ++ squeeze ds := by
  induction cs with
  | nil => rfl
  | cons x cs ih =>
    cases hx : isBlank x
    case false => rw [List.cons_append, squeeze_solid hx, squeeze_solid hx, ih h.tail, List.cons_append]
    case true  =>
      rw [List.cons_append, squeeze_blank hx, squeeze_blank hx, ih h.tail]
      simp only [h.leads_append_iff hx]
      split <;> rfl

theorem Respaced.squeeze_eq (h : Respaced cs ds) :
    squeeze cs = squeeze ds ∧ (Leads isBlank cs ↔ Leads isBlank ds) := by
  induction h with
  | nil => exact ⟨rfl, .rfl⟩
  | cons x _ ih =>
    have ⟨same, leads⟩ := ih
    simp only [squeeze, same, leads, Leads.cons_iff, and_self]
  | gap g g' _ ih =>
    have ⟨same, leads⟩ := ih
    have left := Leads.of_all g.blank g.nonempty
    have right := Leads.of_all g'.blank g'.nonempty
    simp only [squeeze_gap, same, leads, left, right, and_self]

namespace Cursor

-- The same place in a source and in the source with single spaces.
inductive Squeezed (source : List Char) : Cursor → Cursor → Prop where
  | intro {before after : List Char} : source = before ++ after → Parted before after →
    Squeezed source ⟨Bytes.length before, after⟩ ⟨Bytes.length (squeeze before), squeeze after⟩

theorem Squeezed.advance {source before cs after : List Char}
    (split : source = before ++ (cs ++ after)) (left : Parted before cs)
    (right : Parted (before ++ cs) after) :
    Squeezed source ⟨Bytes.length before + Bytes.length cs, after⟩
      ⟨Bytes.length (squeeze before) + Bytes.length (squeeze cs), squeeze after⟩ := by
  have split : source = (before ++ cs) ++ after := by simp [split]
  have next := Squeezed.intro split right
  simpa only [squeeze_append left, Bytes.length_append] using next

theorem lockstep_squeezed (source : List Char) :
    Lockstep (fun p => Bytes.length (squeeze (Bytes.take p source))) (Squeezed source) where
  position := by
    intro c d h
    cases h with
    | intro split => simp [split]
  abreast := by
    intro c d h
    cases h with
    | @intro before after split parted =>
      by_cases leads : Leads isBlank after
      case pos =>
        have ⟨g, rest, eq, ends⟩ := Gap.exists_append leads
        have gap : squeeze (g.text ++ []) = [' '] := squeeze_gap g
        have text : squeeze after = [' '] ++ squeeze rest := by
          rw [eq, squeeze_gap, if_neg ends]
          rfl
        have right : Parted (before ++ g.text) rest := fun _ => ends
        have left : Parted before g.text := fun last => absurd leads (parted last)
        have space : ∀ x ∈ [' '], isBlank x := Gap.space.blank
        have ends' := mt leads_squeeze_iff.mp ends
        refine .blanks leads (leads_squeeze_iff.mpr leads) ?_
        rw [text, eq, skip_append g.blank ends, skip_append space ends', ← gap,
          List.append_nil]
        exact .advance (eq ▸ split) left right
      case neg =>
        cases after
        case nil          => exact .ended rfl rfl
        case cons x after =>
          have solid : isBlank x = false := by simpa using leads
          have left : Parted before [x] := by simp [Parted, solid]
          have right : Parted (before ++ [x]) after := by simp [Parted, solid]
          have sign : squeeze [x] = [x] := squeeze_solid solid
          have next := Squeezed.advance split left right
          rw [sign] at next
          exact .sign solid ⟨rfl, rfl⟩ ⟨squeeze_solid solid, rfl⟩ next

theorem squeezed_start (s : String) : Squeezed s.toList (start s) (start (squeezed s)) := by
  have first := Squeezed.intro (List.nil_append s.toList).symm (fun last => absurd last Leads.nil)
  simpa [start, squeezed, squeeze] using first

end Cursor

namespace Tree

-- What a source is read as, without any positions.
def outcome (source : String) : Except SyntaxError.Cause Shape :=
  ((parse source).map shape).mapError (·.cause)

theorem outcome_of_move {s s' : String} {φ : Nat → Nat}
    (h : parse s' = Reading.move φ (parse s)) : outcome s' = outcome s := by
  rw [outcome, outcome, h]
  cases parse s
  case ok t    => exact congrArg Except.ok (shape_map _ t)
  case error e => rfl

theorem outcome_squeezed (s : String) : outcome (squeezed s) = outcome s :=
  outcome_of_move ((Cursor.lockstep_squeezed s.toList).read (Cursor.squeezed_start s)).1

theorem outcome_of_respaced {s s' : String} (h : Respaced s.toList s'.toList) :
    outcome s' = outcome s := by
  have same : squeezed s = squeezed s' := congrArg String.ofList h.squeeze_eq.1
  rw [← outcome_squeezed s', ← same, outcome_squeezed]

theorem parse_squeezed_of_error {s : String} {e : SyntaxError} (failed : parse s = .error e) :
    ∃ before after : String, s = before ++ after ∧ e.position = before.utf8ByteSize ∧
      squeezed s = squeezed before ++ squeezed after ∧
        parse (squeezed s) = .error ⟨e.cause, (squeezed before).utf8ByteSize⟩ := by
  have ⟨d, position, stopped⟩ := parse_eq_error failed
  have inStep := Scan.template_inStep (Cursor.lockstep_squeezed s.toList)
  have ⟨d', stopped', related⟩ := inStep.error (Cursor.squeezed_start s) stopped
  have failed' : parse (squeezed s) = .error ⟨e.cause, d'.position⟩ := by
    rw [parse, Cursor.read, stopped']
  cases related with
  | @intro before after split parted =>
    have size : (squeezed (.ofList before)).utf8ByteSize = Bytes.length (squeeze before) := by
      rw [squeezed, Bytes.utf8ByteSize_ofList, String.toList_ofList]
    refine ⟨.ofList before, .ofList after, ?split, ?position, ?squeezed, ?failed⟩
    case split    => rw [← String.ofList_append, ← split, String.ofList_toList]
    case position => rw [position, Bytes.utf8ByteSize_ofList]
    case squeezed => simp [squeezed, split, squeeze_append parted]
    case failed   => rw [failed', size]

theorem parse_squeezed (s : String) :
    outcome (squeezed s) = outcome s ∧
      (∀ e, parse s = .error e → ∃ before after : String, s = before ++ after ∧
        e.position = before.utf8ByteSize ∧ squeezed s = squeezed before ++ squeezed after ∧
          parse (squeezed s) = .error ⟨e.cause, (squeezed before).utf8ByteSize⟩) ∧
      ∀ s', Respaced s.toList s'.toList → outcome s' = outcome s :=
  ⟨outcome_squeezed s, fun _ => parse_squeezed_of_error, fun _ => outcome_of_respaced⟩

-- The three blanks before the error are one in the other source. Blanks of any kind may be put first.
theorem parse_squeezed_words :
    (∃ before after : String, "<a> \n\t<1" = before ++ after ∧ 7 = before.utf8ByteSize ∧
      squeezed "<a> \n\t<1" = squeezed before ++ squeezed after ∧
        parse (squeezed "<a> \n\t<1") =
          .error ⟨.unnamed .tagName, (squeezed before).utf8ByteSize⟩) ∧
    outcome "\t\u3000\x7bx\x7d" = .ok ⟨(), .var "x"⟩ := by
  refine ⟨?error, ?respaced⟩
  case error =>
    have failed : parse "<a> \n\t<1" = .error ⟨.unnamed .tagName, 7⟩ := by decide +kernel
    exact (parse_squeezed _).2.1 _ failed
  case respaced =>
    have read : outcome " \x7bx\x7d" = .ok ⟨(), .var "x"⟩ := by decide +kernel
    let wide : Gap := ⟨⟨['\t', '\u3000'], List.all_eq_true.mp (by decide)⟩, by decide⟩
    have same := Respaced.gap .space wide (.cons '{' (.cons 'x' (.cons '}' .nil)))
    exact ((parse_squeezed _).2.2 _ (by simpa [wide] using same)).trans read

end Tree
end MarkupTemplate
