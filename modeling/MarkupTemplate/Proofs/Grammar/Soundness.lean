import MarkupTemplate.Proofs.Grammar.Step
import MarkupTemplate.Proofs.Grammar.Unfinished

/-!
The parser reads nothing but what the grammar derives. `Stage.Reached.step` says that each step
takes one stage of a derivation to the next. `reached_of_run_ok` and `reached_of_run_error` follow
whole runs, to the end of a node and to the step that fails.
-/

namespace MarkupTemplate

open State Unfinished

variable {source c d m : Cursor} {us outer : List Unfinished} {q : Progress} {stage : Stage}

-- A node that was read joins what is open around it.
theorem complete_reached {n : Derivation} (reads : source.Reads (written us ++ n.text) d)
    (proper : ∀ u ∈ us, u.Proper) (n_proper : n.Proper)
    (accepted : ∀ u ∈ us.head?, u.opening.IsLoop → ¬n.IsReferenceTo "end") :
    (complete (n.tree (source.position + Bytes.length (written us)))
      (frames source.position us)).Reached source d := by
  match us with
  | [] => exact .finished n_proper reads
  | u :: us =>
    have ⟨hu, hus⟩ := List.forall_mem_cons.mp proper
    have state : (Stage.body (u.push n :: us)).state source.position =
        .content ((u.frame (source.position + Bytes.length (written us))).push
          (n.tree (source.position + Bytes.length (written (u :: us)))) ::
            frames source.position us) := by
      simp [Stage.state, frames, frame_push, written, Nat.add_assoc]
    rw [frames, complete, ← state]
    refine .reading (.body ?_ ?_)
    · simpa [written, text_push] using reads
    · exact List.forall_mem_cons.mpr ⟨hu.push n_proper (accepted u rfl), hus⟩

theorem startTag_reached {b : Blanks} (reads : source.Reads (written us) c)
    (proper : ∀ u ∈ us, u.Proper) (blanks : c.Reads b.text m)
    (h : startTag (frames source.position us) m = .ok q d) : q.Reached source d := by
  obtain ⟨tag, ht, ends, rfl⟩ := startTag_eq_ok_iff.mp h
  let start : TagStart := .bare b tag
  have state : (Stage.tag start us).state source.position =
      .opening m.position tag.string [] (frames source.position us) := by
    rw [blanks.position, reads.position]
    rfl
  rw [← state]
  refine .reading (.tag ?_ proper fun _ => ends)
  simpa [TagStart.text, TagStart.bare, start] using reads.trans (blanks.trans ht)

-- A bare `end` closes the innermost construct if that is a loop.
theorem end_reached {start : LoopStart} {body : List Derivation} {b left right : Blanks}
    (reads : source.Reads (written (⟨.loop start, body⟩ :: outer)) c)
    (proper : ∀ u ∈ (⟨.loop start, body⟩ :: outer : List Unfinished), u.Proper)
    (blanks : c.Reads b.text m) (word : m.Reads (Braced.text ⟨left, .end_, right⟩) d) :
    (completeVariable Name.end_.string (Braced.variable ⟨left, .end_, right⟩ m.position).site
      (frames source.position (⟨.loop start, body⟩ :: outer))).Reached source d := by
  let n : Derivation := .loop start body b left right
  have ⟨hu, houter⟩ := List.forall_mem_cons.mp proper
  have n_proper : n.Proper := .loop hu.body (hu.not_end trivial)
  let p := source.position + Bytes.length (written outer)
  have tree : Frame.close (Unfinished.frame p ⟨.loop start, body⟩)
      (Braced.variable ⟨left, .end_, right⟩ m.position).site.stop = n.tree p := by
    simp only [n, p, Derivation.tree, frame, Opening.opened, Opening.text, Frame.close,
      List.reverse_reverse, blanks.position, reads.position, written, Unfinished.text,
      Braced.variable, Name.variable, Name.end_, Bytes.length_append, Nat.add_assoc]
  have whole : source.Reads (written outer ++ n.text) d := by
    simpa [n, written, Unfinished.text, Opening.text, Derivation.text, Braced.text, Name.end_]
      using (reads.trans blanks).trans word
  have done := complete_reached whole houter n_proper fun _ _ _ => id
  rw [← tree] at done
  rw [frames, Unfinished.frame, Opening.opened, completeVariable_end rfl]
  exact done

theorem isLoop_frame_iff {u : Unfinished} {p : Nat} :
    (u.frame p).IsLoop ↔ u.opening.IsLoop := by
  obtain ⟨_ | _, _⟩ := u <;> simp [Frame.IsLoop, frame, Opening.opened, Opening.IsLoop]

theorem reference_reached {b : Blanks} {x : Braced} (ne : x.name.string ≠ "for")
    (reads : source.Reads (written us) c) (proper : ∀ u ∈ us, u.Proper)
    (blanks : c.Reads b.text m) (braced : m.Reads x.text d) :
    (completeVariable x.name.string (x.variable m.position).site
      (frames source.position us)).Reached source d := by
  obtain ⟨start, body, outer, rfl, eq⟩ | accepted := closes_or_accepted us x.name
  case inl =>
    obtain ⟨left, _, right⟩ := x
    cases eq
    exact end_reached reads proper blanks braced
  case inr =>
    have tree : (Derivation.reference b x).tree (source.position + Bytes.length (written us)) =
        x.variable m.position := by
      rw [blanks.position, reads.position]
      rfl
    have other : ∀ f ∈ (frames source.position us).head?, f.IsLoop → x.name.string ≠ "end" := by
      match us with
      | []     => nofun
      | u :: _ =>
        rintro _ ⟨⟩ loop
        exact accepted u rfl (isLoop_frame_iff.mp loop)
    rw [completeVariable_eq other]
    exact tree ▸ complete_reached (n := .reference b x) (reads.trans (blanks.trans braced)) proper
      (.reference ne) accepted

theorem braces_reached {b : Blanks} (reads : source.Reads (written us) c)
    (proper : ∀ u ∈ us, u.Proper) (blanks : c.Reads b.text m)
    (h : braces (frames source.position us) m = .ok q d) : q.Reached source d := by
  obtain ⟨x, ne, hx, rfl⟩ | ⟨left, header, head, rfl⟩ := braces_eq_ok_iff.mp h
  case inl => exact reference_reached ne reads proper blanks hx
  case inr =>
    let start : LoopStart := ⟨b, left, header⟩
    have state : (Stage.body (⟨.loop start, []⟩ :: us)).state source.position =
        .content (loopFrame left header m.position :: frames source.position us) := by
      rw [loopFrame, blanks.position, reads.position]
      simp [Stage.state, frames, frame, Opening.opened, LoopStart.start, LoopStart.collectionAt,
        start, Derivation.trees, Nat.add_assoc]
    rw [← state]
    refine .reading (.body ?_ ?_)
    · simpa [written, Unfinished.text, Opening.text, LoopStart.text, start, Derivation.textAll]
        using reads.trans (blanks.trans head)
    · exact List.forall_mem_cons.mpr ⟨proper_nil _, proper⟩

theorem item_reached {b : Blanks} (reads : source.Reads (written us) c)
    (proper : ∀ u ∈ us, u.Proper) (blanks : c.Reads b.text m)
    (h : item (frames source.position us) m = .ok q d) : q.Reached source d := by
  obtain h | h := item_eq_ok_iff.mp h
  case inl => exact startTag_reached reads proper blanks h
  case inr => exact braces_reached reads proper blanks h

theorem close_reached {start : TagStart} {gap b : Blanks} {body : List Derivation}
    (reads : source.Reads (written (⟨.element start gap, body⟩ :: outer)) c)
    (proper : ∀ u ∈ (⟨.element start gap, body⟩ :: outer : List Unfinished), u.Proper)
    (closing : c.Reads (b.text ++ (['<', '/'] ++ start.tag.text ++ ['>'])) d) :
    (complete (Frame.close (Unfinished.frame (source.position + Bytes.length (written outer))
      ⟨.element start gap, body⟩) d.position) (frames source.position outer)).Reached source d := by
  let n : Derivation := .element start gap body b
  have ⟨hu, houter⟩ := List.forall_mem_cons.mp proper
  have n_proper : n.Proper := .element hu.body
  have whole : source.Reads (written outer ++ n.text) d := by
    simpa [n, written, Unfinished.text, Opening.text, Derivation.text] using reads.trans closing
  let p := source.position + Bytes.length (written outer)
  have tree :
      Frame.close (Unfinished.frame p ⟨.element start gap, body⟩) d.position = n.tree p := by
    simp only [n, p, Derivation.tree, frame, Opening.opened, Opening.text, Frame.close,
      List.reverse_reverse, whole.position, Bytes.length_append, Nat.add_assoc]
  exact tree ▸ complete_reached whole houter n_proper fun _ _ _ => id

theorem body_reached {start : TagStart} {b : Blanks}
    (reads : source.Reads (written us ++ start.text) c) (proper : ∀ u ∈ us, u.Proper)
    (closed : c.Reads (b.text ++ ['>']) d) :
    (Stage.body (⟨.element start b, []⟩ :: us)).Reached source d := by
  refine .body ?_ (List.forall_mem_cons.mpr ⟨proper_nil _, proper⟩)
  simpa [written, Unfinished.text, Opening.text, Derivation.textAll] using reads.trans closed

-- A tag with one attribute more. The first one cannot stand right behind the name of the tag, for
-- then its letters would have been a part of that name.
theorem attribute_reached {start : TagStart} {b : Blanks} {a : Assignment} {p : Nat}
    (here : p = source.position + Bytes.length (written us))
    (reads : source.Reads (written us ++ start.text) c) (proper : ∀ u ∈ us, u.Proper)
    (ends : start.attributes = [] → ¬Leads isAlphabetic c.rest)
    (ha : c.Reads (b.text ++ a.text) d) :
    (Progress.reading (.opening (start.start p) start.tag.string
      ((start.attributesAt p).insert a.name.string (a.entry (c.position + Bytes.length b.text)).2)
      (frames source.position us))).Reached source d := by
  have ⟨m, blanks, assignment⟩ := Cursor.Reads.append_iff.mp ha
  have parted (eq : start.attributes = []) : b.text ≠ [] :=
    blanks.blanks_ne_nil (ends eq) (assignment_begins assignment).1
  have tag : (Stage.tag (start.push b a parted) us).Reached source d := by
    refine .tag ?_ proper (fun eq => absurd eq (by simp [TagStart.push]))
    simpa [TagStart.text_push] using reads.trans ha
  have done := Progress.Reached.reading tag
  simp only [Stage.state, TagStart.attributesAt_push, Bytes.length_append, Nat.add_assoc] at done
  simp only [here, reads.position, Bytes.length_append, Nat.add_assoc]
  exact done

theorem Stage.Reached.step (reached : stage.Reached source c)
    (h : step (stage.state source.position) c = .ok q d) : q.Reached source d := by
  cases reached with
  | @tag start us _ reads proper ends =>
    obtain ⟨b, closed, rfl⟩ | ⟨b, a, ha, rfl⟩ := step_opening_eq_ok_iff.mp h
    case inl => exact .reading (body_reached reads proper closed)
    case inr => exact attribute_reached rfl reads proper ends ha
  | @body us _ reads proper =>
    match us with
    | [] =>
      obtain ⟨b, m, blanks, h⟩ := step_root_eq_ok_iff.mp h
      exact item_reached reads proper blanks h
    | ⟨.element start gap, nodes⟩ :: outer =>
      obtain ⟨b, m, blanks, h⟩ | ⟨b, closing, rfl⟩ := step_element_eq_ok_iff.mp h
      case inl => exact item_reached reads proper blanks h
      case inr => exact close_reached reads proper (by simpa using closing)
    | ⟨.loop start, nodes⟩ :: outer =>
      obtain ⟨b, m, blanks, h⟩ := step_loop_eq_ok_iff.mp h
      exact item_reached reads proper blanks h

-- A run that succeeds has read the text of a node.
theorem reached_of_run_ok {s : State} {t : Tree Span} (reached : stage.Reached source c)
    (state : s = stage.state source.position) (h : run s c = .ok t d) :
    ∃ n : Derivation, n.Proper ∧ source.Reads n.text d ∧ t = n.tree source.position := by
  fun_induction run s c generalizing stage with
  | case1 => cases h
  | case2 s c u d' h' =>
    cases h
    cases reached.step (state ▸ h') with
    | finished proper reads => exact ⟨_, proper, reads, rfl⟩
  | case3 s c s' d' h' _ ih =>
    cases reached.step (state ▸ h') with
    | reading reached' => exact ih reached' rfl h

-- A run that fails has come to a stage whose next step fails.
theorem reached_of_run_error {s : State} {cause : SyntaxError.Cause}
    (reached : stage.Reached source c) (state : s = stage.state source.position)
    (h : run s c = .error cause d) :
    ∃ (last : Stage) (m : Cursor), last.Reached source m ∧
      step (last.state source.position) m = .error cause d := by
  fun_induction run s c generalizing stage with
  | case1 s c e d' h' =>
    cases h
    exact ⟨stage, c, reached, state ▸ h'⟩
  | case2 => cases h
  | case3 s c s' d' h' _ ih =>
    cases reached.step (state ▸ h') with
    | reading reached' => exact ih reached' rfl h

theorem Stage.reached_start (source : Cursor) : (Stage.body []).Reached source source :=
  .body .refl nofun

end MarkupTemplate
