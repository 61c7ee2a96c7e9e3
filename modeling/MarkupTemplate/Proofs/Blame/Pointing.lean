import MarkupTemplate.Diagnostic
import MarkupTemplate.Proofs.Blame.Guilty
import MarkupTemplate.Proofs.Blame.Underline
import MarkupTemplate.Proofs.Place.Nesting
import MarkupTemplate.Proofs.Printing.RoundTrip

/-!
Failures of rendering point into the source. A failed evaluation is put down to a variable of the
tree that was read, and its span, its snippet and its diagnostic are about the name written there.
-/

namespace MarkupTemplate

variable {source : String} {scope : Scope} {t : Tree Span} {x : String}

structure EvaluationError.PointsTo (e : EvaluationError Span) (source : String) (scope : Scope)
    (t : Tree Span) (path : List Turn) (x : String) : Prop where
  guilty  : t.Guilty scope e path x
  asked   : e.cause.AsksAt path.getLast?
  covers  : e.site.Covers source x
  snippet : ∃ excerpt : Excerpt source x,
    excerpt.position = e.site.start ∧ (e.snippet source).text = excerpt.underlined
  label   : ∀ sourceName, let d := (RenderError.evaluation e).diagnostic sourceName source
    d.position = e.site.start ∧ d.length = x.utf8ByteSize

theorem IsName.ne_empty (h : IsName x) : x ≠ "" :=
  fun eq => h.1 (by simp [eq])

theorem IsName.not_mem (h : IsName x) : '\n' ∉ x.toList := by
  intro mem
  have letter := h.2 _ mem
  rw [not_isAlphabetic_of_isBlank (by decide)] at letter
  cases letter

theorem Located.isName (h : Located source t) (var : t.node = .var x) : IsName x := by
  cases h
  case name n p _ =>
    cases var
    exact n.isName
  case node d p _ =>
    cases d
    case reference =>
      cases var
      apply Name.isName
    all_goals cases var

namespace EvaluationError

variable {e : EvaluationError Span}

theorem label_eq (h : e.site.Covers source x) (sourceName : String) :
    let d := (RenderError.evaluation e).diagnostic sourceName source
    d.position = e.site.start ∧ d.length = x.utf8ByteSize := by
  refine ⟨rfl, ?_⟩
  apply Nat.sub_eq_of_eq_add'
  exact h.length_eq

theorem pointsTo_of_evaluate (parsed : Tree.parse source = .ok t)
    (h : t.evaluate scope = .error e) : ∃ path x, e.PointsTo source scope t path x := by
  have ⟨path, x, guilty, asked⟩ := Tree.blames_of_evaluate (Tree.sound_of_parse parsed) h
  have located := (Tree.located_of_parse parsed).of_at? guilty.here
  have covers := located.covers
  have name := located.isName rfl
  have snippet := Snippet.text_of_covers covers name.ne_empty name.not_mem
  exact ⟨path, x, guilty, asked, covers, snippet, label_eq covers⟩

end EvaluationError

namespace RenderError

open EvaluationError

theorem pointsTo_of_render {e : RenderError} (h : render source scope = .error e) :
    e.span.start ≤ e.span.stop ∧ ∀ failure, e = .evaluation failure →
      ∃ t path x, Tree.parse source = .ok t ∧ failure.PointsTo source scope t path x := by
  cases parsed : Tree.parse source
  case error failure =>
    rw [render, parsed] at h
    cases h
    refine ⟨Nat.le_refl _, ?_⟩
    intro _ eq
    cases eq
  case ok t =>
    rw [render_of_parse parsed, mapError_eq_error_iff] at h
    obtain ⟨failure, failed, eq⟩ := h
    obtain ⟨path, x, pointsTo⟩ := pointsTo_of_evaluate parsed failed
    cases eq
    refine ⟨Nat.le.intro pointsTo.covers.length_eq.symm, ?_⟩
    intro failure eq
    cases eq
    exact ⟨t, path, x, rfl, pointsTo⟩

-- In the loop the name is bound by the loop, behind it to a list.
theorem pointsTo_of_shadowed :
    let source := "<a>\n\x7bfor é in é\x7d\x7bé\x7d\x7bend\x7d\n\x7bé\x7d</a>"
    let scope := Scope.empty.bind "é" (.list [.text "y"])
    let failure : EvaluationError Span := ⟨.notRenderable, ⟨29, 31⟩⟩
    render source scope = .error (.evaluation failure) ∧ ∃ t path x,
      Tree.parse source = .ok t ∧ failure.PointsTo source scope t path x := by
  intro source scope failure
  have failed : render source scope = .error (.evaluation failure) := by decide +kernel
  exact ⟨failed, (pointsTo_of_render failed).2 failure rfl⟩

end RenderError
end MarkupTemplate
