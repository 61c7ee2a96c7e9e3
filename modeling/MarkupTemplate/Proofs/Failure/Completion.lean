import MarkupTemplate.Proofs.Grammar.Unfinished

/-!
Whatever is open can be closed again. `Viable us text` says that a template begins with the open
constructs `us` and then `text`, and the lemmas below name texts of which this is true.
-/

namespace MarkupTemplate

open Unfinished

variable {us outer : List Unfinished} {n : Derivation} {cs ds : List Char}

-- The construct without anything after its body.
def Unfinished.closed (u : Unfinished) : Derivation :=
  match u.opening with
  | .element start gap => .element start gap u.body .none
  | .loop start => .loop start u.body .none .none .none

def Viable (us : List Unfinished) (cs : List Char) : Prop :=
  ∃ (whole : Derivation) (tail : List Char),
    whole.Proper ∧ whole.text = written us ++ cs ++ tail

namespace Unfinished

theorem text_closed (u : Unfinished) : ∃ tail, u.closed.text = u.text ++ tail := by
  obtain ⟨⟨start, gap⟩ | start, body⟩ := u
  all_goals
    simp only [closed, text, Opening.text, Derivation.text, List.append_assoc]
    exact ⟨_, rfl⟩

theorem Proper.closed {u : Unfinished} (h : u.Proper) : u.closed.Proper := by
  obtain ⟨⟨_, _⟩ | _, _⟩ := u
  case element => exact .element h.body
  case loop    => exact .loop h.body (h.not_end trivial)

theorem closed_not_end (u : Unfinished) : ¬u.closed.IsReferenceTo "end" := by
  obtain ⟨⟨_, _⟩ | _, _⟩ := u
  all_goals exact id

end Unfinished

namespace Viable

theorem of_append (h : Viable us (cs ++ ds)) : Viable us cs := by
  obtain ⟨whole, tail, proper, text⟩ := h
  exact ⟨whole, ds ++ tail, proper, by simpa using text⟩

theorem of_node (proper : ∀ u ∈ us, u.Proper) (n_proper : n.Proper)
    (accepted : ∀ u ∈ us.head?, u.opening.IsLoop → ¬n.IsReferenceTo "end") :
    Viable us n.text := by
  induction us generalizing n with
  | nil => exact ⟨n, [], n_proper, by simp [written]⟩
  | cons u us ih =>
    have ⟨hu, hus⟩ := List.forall_mem_cons.mp proper
    have pushed : (u.push n).Proper := hu.push n_proper (accepted u rfl)
    obtain ⟨whole, tail, whole_proper, text⟩ :=
      ih hus pushed.closed fun _ _ _ => (u.push n).closed_not_end
    have ⟨tail', text'⟩ := (u.push n).text_closed
    exact ⟨whole, tail' ++ tail, whole_proper, by simp [text, text', text_push, written]⟩

-- What closes the innermost construct completes a node of the next one.
theorem of_close {u : Unfinished} (proper : ∀ u ∈ outer, u.Proper) (n_proper : n.Proper)
    (not_end : ¬n.IsReferenceTo "end") (text : n.text = u.text ++ cs) : Viable (u :: outer) cs := by
  obtain ⟨whole, tail, whole_proper, whole_text⟩ := of_node proper n_proper fun _ _ _ => not_end
  exact ⟨whole, tail, whole_proper, by simpa [text, written] using whole_text⟩

theorem of_closingTag {start : TagStart} {gap : Blanks} {body : List Derivation} (b : Blanks)
    (proper : ∀ u ∈ (⟨.element start gap, body⟩ :: outer : List Unfinished), u.Proper) :
    Viable (⟨.element start gap, body⟩ :: outer)
      (b.text ++ (['<', '/'] ++ start.tag.text ++ ['>'])) := by
  have ⟨hu, houter⟩ := List.forall_mem_cons.mp proper
  refine of_close (n := .element start gap body b) houter (.element hu.body) id ?_
  simp [Derivation.text, Unfinished.text, Opening.text]

theorem of_end {start : LoopStart} {body : List Derivation} (b left right : Blanks)
    (proper : ∀ u ∈ (⟨.loop start, body⟩ :: outer : List Unfinished), u.Proper) :
    Viable (⟨.loop start, body⟩ :: outer) (b.text ++ Braced.text ⟨left, .end_, right⟩) := by
  have ⟨hu, houter⟩ := List.forall_mem_cons.mp proper
  refine of_close (n := .loop start body b left right) houter
    (.loop hu.body (hu.not_end trivial)) id ?_
  simp [Derivation.text, Unfinished.text, Opening.text, Braced.text, Name.end_]

-- Either a node, or the end of the innermost construct.
theorem of_braced {x : Braced} (b : Blanks) (ne : x.name.string ≠ "for")
    (proper : ∀ u ∈ us, u.Proper) : Viable us (b.text ++ x.text) := by
  obtain ⟨start, body, outer, rfl, eq⟩ | accepted := closes_or_accepted us x.name
  case inl =>
    obtain ⟨left, _, right⟩ := x
    cases eq
    exact of_end b left right proper
  case inr => exact of_node (n := .reference b x) proper (.reference ne) accepted

theorem of_tagStart (start : TagStart) (proper : ∀ u ∈ us, u.Proper) : Viable us start.text := by
  have := of_node (n := .element start .none [] .none) proper (.element nofun) fun _ _ _ => id
  simp only [Derivation.text, List.append_assoc] at this
  exact this.of_append

theorem of_loopStart (start : LoopStart) (proper : ∀ u ∈ us, u.Proper) : Viable us start.text := by
  have := of_node (n := .loop start [] .none .none .none) proper (.loop nofun nofun) fun _ _ _ => id
  simp only [Derivation.text, List.append_assoc] at this
  exact this.of_append

end Viable
end MarkupTemplate
