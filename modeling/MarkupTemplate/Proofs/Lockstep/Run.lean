import Mathlib.Data.List.Forall2
import MarkupTemplate.Proofs.Grammar.Completeness
import MarkupTemplate.Proofs.Lockstep.Scan

/-!
Two sources read side by side. What is open in them is the same, except for the positions, so each
step does the same in both of them, and so does a whole reading (`Cursor.Lockstep.read`).
-/

namespace MarkupTemplate

open Cursor (Lockstep)

variable {φ : Nat → Nat} {r : Cursor → Cursor → Prop}

-- The tag of an open element has no blanks in it, so its closing tag has none either.
inductive Opened.Moved (φ : Nat → Nat) : Opened → Opened → Prop where
  | element {start : Nat} {tag : String} {attributes : Attributes (Tree Span)} :
    IsName tag → Moved φ (.element start tag attributes)
      (.element (φ start) tag (attributes.mapEntries (Tree.map (.move φ))))
  | loop {start : Nat} {binder : String} {collection : Tree Span} :
    Moved φ (.loop start binder collection)
      (.loop (φ start) binder (collection.map (.move φ)))

structure Frame.Moved (φ : Nat → Nat) (f g : Frame) : Prop where
  opened : f.opened.Moved φ g.opened
  body   : g.body = f.body.map (Tree.map (.move φ))

inductive State.Moved (φ : Nat → Nat) : State → State → Prop where
  | opening {start : Nat} {tag : String} {attributes : Attributes (Tree Span)}
      {outer outer' : List Frame} :
    IsName tag → List.Forall₂ (Frame.Moved φ) outer outer' →
      Moved φ (.opening start tag attributes outer)
        (.opening (φ start) tag (attributes.mapEntries (Tree.map (.move φ))) outer')
  | content {frames frames' : List Frame} :
    List.Forall₂ (Frame.Moved φ) frames frames' → Moved φ (.content frames) (.content frames')

inductive Progress.Moved (φ : Nat → Nat) : Progress → Progress → Prop where
  | reading {s s' : State} : s.Moved φ s' → Moved φ (.reading s) (.reading s')
  | finished (t : Tree Span) : Moved φ (.finished t) (.finished (t.map (.move φ)))

def Tree.Moved (φ : Nat → Nat) (t u : Tree Span) : Prop :=
  u = t.map (.move φ)

namespace Frame.Moved

variable {f g : Frame}

theorem push (h : f.Moved φ g) (t : Tree Span) :
    (f.push t).Moved φ (g.push (t.map (.move φ))) where
  opened := h.opened
  body   := by simp [Frame.push, h.body]

theorem close (h : f.Moved φ g) (stop : Nat) :
    g.close (φ stop) = (f.close stop).map (.move φ) := by
  obtain ⟨opened, body⟩ := f
  obtain ⟨opened', body'⟩ := g
  obtain ⟨opened, rfl⟩ := h
  cases opened
  all_goals simp [Frame.close, Tree.map, Span.move]

end Frame.Moved

namespace Scan

variable (h : Lockstep φ r)

include h

theorem reference_inStep : InStep r (Tree.Moved φ) reference reference :=
  (name_inStep h _).bind fun _ _ value => .pure (by rw [value.2]; rfl)

theorem assignment_inStep :
    InStep r (fun a b => b = (a.1, a.2.map (.move φ))) assignment assignment :=
  (name_inStep h _).bind fun _ _ x => (blanks_inStep h).after fun _ =>
  (literal_inStep h (by decide)).after fun _ => (blanks_inStep h).after fun _ =>
  (literal_inStep h (by decide)).after fun _ => (blanks_inStep h).after fun _ =>
  (reference_inStep h).bind fun _ _ value => (blanks_inStep h).after fun _ =>
  (literal_inStep h (by decide)).after fun _ => .pure (by rw [x.2, value])

theorem loopHeader_inStep :
    InStep r (fun a b => b = (a.1, a.2.map (.move φ))) loopHeader loopHeader :=
  (blanks_inStep h).after fun _ => (name_inStep h _).bind fun _ _ x =>
  (blanks_inStep h).after fun _ => (literal_inStep h (by decide)).after fun _ =>
  (blanks_inStep h).after fun _ => (reference_inStep h).bind fun _ _ value =>
  (blanks_inStep h).after fun _ => (literal_inStep h (by decide)).after fun _ =>
  .pure (by rw [x.2, value])

end Scan

namespace State

open Scan

variable {frames frames' : List Frame}

theorem complete_moved (h : List.Forall₂ (Frame.Moved φ) frames frames') (t : Tree Span) :
    (complete t frames).Moved φ (complete (t.map (.move φ)) frames') := by
  cases h
  case nil               => exact .finished t
  case cons frame others => exact .reading (.content (.cons (frame.push t) others))

theorem completeVariable_moved (h : List.Forall₂ (Frame.Moved φ) frames frames') (x : String)
    (span : Span) : (completeVariable x span frames).Moved φ
      (completeVariable x (span.move φ) frames') := by
  cases h
  case nil => exact complete_moved .nil _
  case cons f g _ _ frame others =>
    obtain ⟨opened, body⟩ := f
    obtain ⟨opened', body'⟩ := g
    have related := frame.opened
    cases related
    case element => exact complete_moved (.cons frame others) _
    case loop =>
      simp only [completeVariable]
      split
      case isFalse => exact complete_moved (.cons frame others) _
      case isTrue  =>
        have closed := frame.close span.stop
        simp only [Span.move, closed]
        exact complete_moved others _

section

variable (h : Lockstep φ r)

include h

theorem startTag_inStep (moved : List.Forall₂ (Frame.Moved φ) frames frames') :
    InStep r (Progress.Moved φ) (startTag frames) (startTag frames') :=
  (position_inStep h).bind fun _ _ start => (literal_inStep h (by decide)).after fun _ =>
  (name_inStep h _).bind fun _ _ tag => .pure (by
    rw [start, tag.2]
    exact .reading (.opening tag.1 moved))

theorem braces_inStep (moved : List.Forall₂ (Frame.Moved φ) frames frames') :
    InStep r (Progress.Moved φ) (braces frames) (braces frames') := by
  refine (literal_inStep h (by decide)).after fun _ => (blanks_inStep h).after fun _ =>
    (name_inStep h _).bind fun a b value => ?_
  rw [value.2]
  refine .ite ((loopHeader_inStep h).bind fun a' b' value' => .pure ?_)
    ((blanks_inStep h).after fun _ => (literal_inStep h (by decide)).after fun _ =>
      .pure (completeVariable_moved moved _ _))
  rw [value']
  exact .reading (.content (.cons ⟨.loop, rfl⟩ moved))

theorem item_inStep (moved : List.Forall₂ (Frame.Moved φ) frames frames') :
    InStep r (Progress.Moved φ) (item frames) (item frames') :=
  (sees_inStep h (by decide)).after fun _ => .ite (startTag_inStep h moved) <|
  (sees_inStep h (by decide)).after fun _ => .ite (braces_inStep h moved) (.throw _)

theorem step_inStep {s s' : State} (state : s.Moved φ s') :
    InStep r (Progress.Moved φ) (step s) (step s') := by
  cases state
  case opening named outer =>
    refine (blanks_inStep h).after fun _ => (sees_inStep h (by decide)).after fun _ => .ite
      ((literal_inStep h (by decide)).after fun _ =>
        .pure (.reading (.content (.cons ⟨.element named, rfl⟩ outer))))
      ((assignment_inStep h).bind fun a b value => .pure ?_)
    cases value
    dsimp only
    rw [← Attributes.mapEntries_insert]
    exact .reading (.opening named outer)
  case content frames frames' moved =>
    cases moved
    case nil => exact (blanks_inStep h).after fun _ => item_inStep h .nil
    case cons f g outer outer' frame others =>
      obtain ⟨opened, body⟩ := f
      obtain ⟨opened', body'⟩ := g
      have related := frame.opened
      cases related
      case loop =>
        exact (blanks_inStep h).after fun _ => (atEnd_inStep h).after fun _ =>
          .ite (.throw _) (item_inStep h (.cons frame others))
      case element named =>
        have solid := named.solid_closing
        refine (blanks_inStep h).after fun _ => (sees_inStep h solid).after fun _ => .ite
          ((literal_inStep h solid).after fun _ => (position_inStep h).bind fun stop _ place =>
            .pure ?_)
          ((atEnd_inStep h).after fun _ => (sees_inStep h (by decide)).after fun _ =>
            .ite (.throw _) (item_inStep h (.cons frame others)))
        rw [place, frame.close]
        exact complete_moved others _

end

theorem run_inStep (h : Lockstep φ r) {s s' : State} (state : s.Moved φ s') :
    InStep r (Tree.Moved φ) (run s) (run s') where
  ok := by
    intro c d t c' related eq
    fun_induction run s c generalizing s' d with
    | case1 => cases eq
    | case2 s c u m first =>
      cases eq
      obtain ⟨q, m', first', progress, related'⟩ := (step_inStep h state).ok related first
      cases progress
      exact ⟨_, m', run_of_step first', rfl, related'⟩
    | case3 s c s₁ m first _ ih =>
      obtain ⟨q, m', first', progress, related'⟩ := (step_inStep h state).ok related first
      cases progress
      case reading state' =>
        rw [run_of_step first']
        exact ih state' related' eq
  error := by
    intro c d e c' related eq
    fun_induction run s c generalizing s' d with
    | case1 s c e m failed =>
      cases eq
      obtain ⟨m', failed', related'⟩ := (step_inStep h state).error related failed
      exact ⟨m', run_of_step_error failed', related'⟩
    | case2 => cases eq
    | case3 s c s₁ m first _ ih =>
      obtain ⟨q, m', first', progress, related'⟩ := (step_inStep h state).ok related first
      cases progress
      case reading state' =>
        rw [run_of_step first']
        exact ih state' related' eq

end State

theorem Scan.template_inStep (h : Lockstep φ r) : InStep r (Tree.Moved φ) template template :=
  (State.run_inStep h (.content .nil)).bind fun _ _ value => (blanks_inStep h).after fun _ =>
  (atEnd_inStep h).after fun _ => .ite (.pure value) (.throw _)

abbrev Reading :=
  Except SyntaxError (Tree Span)

def Reading.move (φ : Nat → Nat) : Reading → Reading
  | .ok t    => .ok (t.map (.move φ))
  | .error e => .error ⟨e.cause, φ e.position⟩

theorem Cursor.Lockstep.read (h : Lockstep φ r) {c d : Cursor} (related : r c d) :
    d.read.1 = Reading.move φ c.read.1 ∧ r c.read.2 d.read.2 := by
  have inStep := Scan.template_inStep h
  simp only [Cursor.read]
  cases eq : Scan.template c
  case ok t c' =>
    have ⟨u, d', eq', value, related'⟩ := inStep.ok related eq
    simp only [eq']
    exact ⟨congrArg Except.ok value, related'⟩
  case error e c' =>
    have ⟨d', eq', related'⟩ := inStep.error related eq
    simp only [eq', Reading.move, h.position related']
    exact ⟨trivial, related'⟩

end MarkupTemplate
