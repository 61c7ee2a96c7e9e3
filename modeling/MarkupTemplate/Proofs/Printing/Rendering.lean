import MarkupTemplate.Proofs.Blame.Guilty
import MarkupTemplate.Proofs.Place.Nesting
import MarkupTemplate.Proofs.Printing.RoundTrip

/-!
Rendering what was printed. Trees of one shape evaluate in step (`evaluate_of_shape_eq`), and if
they fail they do so at the same node (`evaluate_eq_error_of_shape_eq`). So the canonical text of a
template can take the place of the source that it was read from.
-/

namespace MarkupTemplate

open EvaluationError

namespace Tree

variable {ι κ : Type} {scope : Scope}

-- What makes one item of two members that agree makes one list of two lists that do.
theorem exists_pairs {α β γ δ : Type} {f : α → δ} {g : β → δ} {p : γ → α} {q : γ → β}
    {as : List α} {bs : List β} (same : as.map f = bs.map g)
    (ih : ∀ a ∈ as, ∀ b, f a = g b → ∃ c, p c = a ∧ q c = b) :
    ∃ cs : List γ, cs.map p = as ∧ cs.map q = bs := by
  induction as generalizing bs with
  | nil =>
    cases bs
    case nil  => exact ⟨[], rfl, rfl⟩
    case cons => cases same
  | cons a as ih' =>
    cases bs
    case nil       => cases same
    case cons b bs =>
      have ⟨head, tail⟩ := List.cons.inj same
      have ⟨ha, has⟩ := List.forall_mem_cons.mp ih
      have ⟨c, left, right⟩ := ha b head
      have ⟨cs, lefts, rights⟩ := ih' tail has
      exact ⟨c :: cs, by simp [left, lefts], by simp [right, rights]⟩

-- Trees of one shape are the two sides of a tree that has the sites of both.
theorem exists_pair {t : Tree ι} {u : Tree κ} (same : t.shape = u.shape) :
    ∃ z : Tree (ι × κ), z.map Prod.fst = t ∧ z.map Prod.snd = u := by
  induction t generalizing u with
  | var site x =>
    obtain ⟨site', _ | _ | _⟩ := u
    case var =>
      cases same
      exact ⟨⟨(site, site'), .var x⟩, rfl, rfl⟩
    all_goals cases same
  | element site tag attributes body ihA ihB =>
    obtain ⟨site', _ | ⟨tag', attributes', body'⟩ | _⟩ := u
    case element =>
      simp only [shape, Tree.map, mapAttributes_eq, mapBody_eq, mk.injEq, Node.element.injEq,
        true_and] at same
      obtain ⟨tags, values, bodies⟩ := same
      obtain ⟨ts, left, right⟩ := exists_pairs bodies ihB
      obtain ⟨as, left', right'⟩ : ∃ as : List (String × Tree (ι × κ)),
          as.map (fun a => (a.1, a.2.map Prod.fst)) = attributes ∧
            as.map (fun a => (a.1, a.2.map Prod.snd)) = attributes' := by
        apply exists_pairs values
        intro a ha b eq
        obtain ⟨names, shapes⟩ := Prod.mk.inj eq
        obtain ⟨z, left, right⟩ := ihA a ha shapes
        exact ⟨(a.1, z), by rw [left], by rw [right, names]⟩
      refine ⟨⟨(site, site'), .element tag as ts⟩, ?_⟩
      simp [Tree.map, Attributes.mapEntries, tags, left, right, left', right']
    all_goals cases same
  | loop site binder collection body ihC ihB =>
    obtain ⟨site', _ | _ | ⟨binder', collection', body'⟩⟩ := u
    case loop =>
      simp only [shape, Tree.map, mapBody_eq, mk.injEq, Node.loop.injEq, true_and] at same
      obtain ⟨binders, collections, bodies⟩ := same
      obtain ⟨c, left, right⟩ := ihC collections
      obtain ⟨ts, left', right'⟩ := exists_pairs bodies ihB
      refine ⟨⟨(site, site'), .loop binder c ts⟩, ?_⟩
      simp [Tree.map, binders, left, right, left', right']
    all_goals cases same

theorem evaluate_of_shape_eq {t : Tree ι} {u : Tree κ} (same : t.shape = u.shape) (scope : Scope) :
    (t.evaluate scope).mapError (·.cause) = (u.evaluate scope).mapError (·.cause) := by
  have ⟨z, left, right⟩ := exists_pair same
  rw [← left, ← right, evaluate_map, evaluate_map]
  cases z.evaluate scope <;> rfl

theorem evaluate_eq_ok_iff_of_shape_eq {t : Tree ι} {u : Tree κ} (same : t.shape = u.shape)
    {v : Value} : t.evaluate scope = .ok v ↔ u.evaluate scope = .ok v := by
  have ⟨z, left, right⟩ := exists_pair same
  rw [← left, ← right, evaluate_map, evaluate_map, mapError_eq_ok_iff, mapError_eq_ok_iff]

theorem evaluate_eq_error_of_shape_eq {t : Tree ι} {u : Tree κ} (same : t.shape = u.shape)
    (sound : t.Sound) {e : EvaluationError ι} (h : t.evaluate scope = .error e) :
    ∃ r path x, u.evaluate scope = .error ⟨e.cause, r⟩ ∧
      t.at? path = some ⟨e.site, .var x⟩ ∧ u.at? path = some ⟨r, .var x⟩ := by
  have ⟨z, left, right⟩ := exists_pair same
  rw [← left, evaluate_map, mapError_eq_error_iff] at h
  have ⟨failure, failed, eq⟩ := h
  rw [← left] at sound
  have ⟨path, x, guilty, _⟩ := blames_of_evaluate sound.of_map failed
  refine ⟨failure.site.2, path, x, ?_, ?_, ?_⟩
  · rw [← right, evaluate_map, failed, ← eq]
    rfl
  · rw [← left, at?_map, guilty.here, ← eq]
    rfl
  · rw [← right, at?_map, guilty.here]
    rfl

end Tree

theorem render_print :
    (∀ (ι κ : Type) (t : Tree ι) (u : Tree κ), t.shape = u.shape → ∀ scope,
      (t.evaluate scope).mapError (·.cause) = (u.evaluate scope).mapError (·.cause)) ∧
    ∀ source t, Tree.parse source = .ok t → ∃ u, Tree.parse t.shape.print = .ok u ∧
      u.shape = t.shape ∧ ∀ scope,
        (∀ v, render t.shape.print scope = .ok v ↔ render source scope = .ok v) ∧
        ∀ e, render source scope = .error (.evaluation e) → ∃ r path x,
          render t.shape.print scope = .error (.evaluation ⟨e.cause, r⟩) ∧
            t.at? path = some ⟨e.site, .var x⟩ ∧ u.at? path = some ⟨r, .var x⟩ ∧
              e.site.Covers source x ∧ r.Covers t.shape.print x := by
  refine ⟨fun _ _ _ _ same => Tree.evaluate_of_shape_eq same, fun source t parsed => ?_⟩
  have ⟨keyed, wellFormed⟩ := Tree.keyed_of_parse parsed
  have ⟨u, reparsed, same⟩ := Tree.exists_parse_print keyed wellFormed
  refine ⟨u, reparsed, same, fun scope => ⟨fun v => ?_, fun e failed => ?_⟩⟩
  · rw [render_eq_ok_iff reparsed, render_eq_ok_iff parsed]
    exact Tree.evaluate_eq_ok_iff_of_shape_eq same
  · rw [render_eq_error_iff parsed] at failed
    have ⟨r, path, x, failed', here, here'⟩ :=
      Tree.evaluate_eq_error_of_shape_eq same.symm (Tree.sound_of_parse parsed) failed
    refine ⟨r, path, x, (render_eq_error_iff reparsed).mpr failed', here, here', ?_, ?_⟩
    · exact ((Tree.located_of_parse parsed).of_at? here).covers
    · exact ((Tree.located_of_parse reparsed).of_at? here').covers

-- The attribute is at fault, in both texts.
theorem render_print_spaced :
    let source := "<a  x = \x7by\x7d >\n\x7bé\x7d</a>"
    let printed := "<a x=\x7b y \x7d>\x7b é \x7d</a>"
    let scope := (Scope.empty.bind "y" (.markup "y")).bind "é" (.text "z")
    render source scope = .error (.evaluation ⟨.notText, ⟨9, 10⟩⟩) ∧ ∃ r x,
      render printed scope = .error (.evaluation ⟨.notText, r⟩) ∧
        Span.Covers ⟨9, 10⟩ source x ∧ r.Covers printed x := by
  intro source printed scope
  let y : Tree Span := ⟨⟨9, 10⟩, .var "y"⟩
  let t : Tree Span := ⟨⟨0, 22⟩, .element "a" [("x", y)] [⟨⟨15, 17⟩, .var "é"⟩]⟩
  have parsed : Tree.parse source = .ok t := by decide +kernel
  have failed : render source scope = .error (.evaluation ⟨.notText, ⟨9, 10⟩⟩) := by decide +kernel
  have ⟨_, _, _, same⟩ := render_print.2 source t parsed
  have ⟨r, _, x, failed', _, _, covers, covers'⟩ := (same scope).2 _ failed
  exact ⟨failed, r, x, failed', covers, covers'⟩

end MarkupTemplate
