import MarkupTemplate.Proofs.Grammar.Step

/-!
Whatever the grammar derives is read as the tree that it stands for. `isRead_of_proper` is the
induction over derivations: reading a node in front of any text, from inside any open constructs,
completes its tree and goes on behind it.
-/

namespace MarkupTemplate

-- Goes on from what a step has led to.
def Progress.resume : Progress → Scan (Tree Span)
  | .reading s  => s.run
  | .finished t => pure t

def Derivation.Accepted (d : Derivation) (frames : List Frame) : Prop :=
  ∀ f ∈ frames.head?, f.IsLoop → ¬d.IsReferenceTo "end"

-- Reading the text of `n` completes its tree, whatever else is open.
def Derivation.IsRead (n : Derivation) : Prop :=
  ∀ {frames : List Frame} {c d : Cursor}, n.Accepted frames → c.Reads n.text d →
    State.run (.content frames) c = (State.complete (n.tree c.position) frames).resume d

namespace State

open Scan

variable {c d : Cursor} {frames outer : List Frame} {q : Progress} {s : State}

theorem run_of_step (h : step s c = .ok q d) : run s c = q.resume d := by
  rw [run]
  split
  case h_1 g => cases h.symm.trans g
  case h_2 g => cases h.symm.trans g; rfl
  case h_3 g => cases h.symm.trans g; rfl

theorem run_of_step_error {cause : SyntaxError.Cause} (h : step s c = .error cause d) :
    run s c = .error cause d := by
  rw [run]
  split
  case h_1 g => cases h.symm.trans g; rfl
  case h_2 g => cases h.symm.trans g
  case h_3 g => cases h.symm.trans g

theorem step_of_item {b : Blanks} {m : Cursor} (reads : c.Reads b.text m)
    (h : item frames m = .ok q d) : step (.content frames) c = .ok q d := by
  match frames with
  | []                     => exact step_root_eq_ok_iff.mpr ⟨b, m, reads, h⟩
  | ⟨.element .., _⟩ :: _ => exact step_element_eq_ok_iff.mpr <| .inl ⟨b, m, reads, h⟩
  | ⟨.loop .., _⟩ :: _    => exact step_loop_eq_ok_iff.mpr ⟨b, m, reads, h⟩

theorem run_of_item {b : Blanks} {m : Cursor} (reads : c.Reads b.text m)
    (h : item frames m = .ok q d) : run (.content frames) c = q.resume d :=
  run_of_step (step_of_item reads h)

theorem reference_isRead {before : Blanks} {b : Braced} (ne : b.name.string ≠ "for") :
    (Derivation.reference before b).IsRead := by
  intro frames c d accepted reads
  obtain ⟨m, blanks, braced⟩ := Cursor.Reads.append_iff.mp reads
  have h : braces frames m = .ok _ d := braces_eq_ok_iff.mpr <| .inl ⟨b, ne, braced, rfl⟩
  rw [run_of_item blanks (item_eq_ok_iff.mpr <| .inr h), completeVariable_eq accepted,
    blanks.position]
  rfl

theorem run_attributes {start : Nat} {tag : String} {attributes : Attributes (Tree Span)}
    {as : List (Blanks × Assignment)}
    (reads : c.Reads (as.flatMap fun a => a.1.text ++ a.2.text) d) :
    run (.opening start tag attributes outer) c =
      run (.opening start tag ((Assignment.entries c.position as).foldl
        (fun bs a => bs.insert a.1 a.2) attributes) outer) d := by
  induction as generalizing c attributes with
  | nil => rw [← reads.deterministic .refl]; rfl
  | cons a as ih =>
    obtain ⟨b, a⟩ := a
    obtain ⟨m, head, tail⟩ := Cursor.Reads.append_iff.mp reads
    rw [run_of_step (step_opening_eq_ok_iff.mpr <| .inr ⟨b, a, head, rfl⟩), Progress.resume,
      ih tail, head.position]
    rfl

theorem run_body {f : Frame} {body : List Derivation} (ih : ∀ n ∈ body, n.IsRead)
    (accepted : ∀ n ∈ body, f.IsLoop → ¬n.IsReferenceTo "end")
    (reads : c.Reads (Derivation.textAll body) d) :
    run (.content (f :: outer)) c =
      run (.content (⟨f.opened, (Derivation.trees c.position body).reverse ++ f.body⟩ :: outer))
        d := by
  induction body generalizing c f with
  | nil => rw [← reads.deterministic .refl]; rfl
  | cons t ts ih' =>
    obtain ⟨m, head, tail⟩ := Cursor.Reads.append_iff.mp reads
    have accepted_head : t.Accepted (f :: outer) := by
      rintro _ ⟨⟩
      exact accepted t List.mem_cons_self
    rw [ih t List.mem_cons_self accepted_head head, complete, Progress.resume,
      ih' (f := f.push _) (fun d hd => ih d (List.mem_cons_of_mem _ hd))
        (fun d hd => accepted d (List.mem_cons_of_mem _ hd)) tail, head.position]
    simp [Derivation.trees, Frame.push]

theorem ends_of_parted {as : List (Blanks × Assignment)} {gap : Blanks} {m : Cursor}
    (parted : ∀ a ∈ as.head?, a.1.text ≠ [])
    (attributes : c.Reads (as.flatMap fun a => a.1.text ++ a.2.text) m)
    (closed : m.Reads (gap.text ++ ['>']) d) : ¬Leads isAlphabetic c.rest := by
  obtain ⟨_, gap, sign⟩ := Cursor.Reads.append_iff.mp closed
  match as with
  | [] =>
    rw [← attributes.deterministic .refl]
    exact gap.blanks_not_isAlphabetic (sign.sign_not_isAlphabetic (by decide))
  | a :: _ =>
    simp only [List.flatMap_cons, List.append_assoc] at attributes
    have ⟨_, first, _⟩ := Cursor.Reads.append_iff.mp attributes
    exact Cursor.Reads.gap_not_isAlphabetic (g := ⟨a.1, parted a rfl⟩) first

theorem element_isRead {start : TagStart} {gap last : Blanks} {body : List Derivation}
    (ih : ∀ n ∈ body, n.IsRead) : (Derivation.element start gap body last).IsRead := by
  intro frames c d _ whole
  have text : (Derivation.element start gap body last).text =
      start.before.text ++ (['<'] ++ start.tag.text) ++
        (start.attributes.flatMap fun a => a.1.text ++ a.2.text) ++ (gap.text ++ ['>']) ++
        Derivation.textAll body ++ (last.text ++ (['<', '/'] ++ start.tag.text ++ ['>'])) := by
    simp [Derivation.text, TagStart.text]
  have ⟨c₄, before₄, closing⟩ := Cursor.Reads.append_iff.mp (text ▸ whole)
  have ⟨c₃, before₃, inner⟩ := Cursor.Reads.append_iff.mp before₄
  have ⟨c₂, before₂, closed⟩ := Cursor.Reads.append_iff.mp before₃
  have ⟨c₁, before₁, attributes⟩ := Cursor.Reads.append_iff.mp before₂
  have ⟨m, blanks, tag⟩ := Cursor.Reads.append_iff.mp before₁
  have h : startTag frames m = .ok _ c₁ := startTag_eq_ok_iff.mpr
    ⟨start.tag, tag, ends_of_parted start.parted attributes closed, rfl⟩
  rw [run_of_item blanks (item_eq_ok_iff.mpr <| .inl h), Progress.resume, run_attributes attributes,
    run_of_step (step_opening_eq_ok_iff.mpr <| .inl ⟨gap, closed, rfl⟩), Progress.resume,
    run_body ih (by rintro _ _ ⟨_, _, _, ⟨⟩⟩) inner,
    run_of_step (step_element_eq_ok_iff.mpr <| .inr ⟨last, by simpa using closing, rfl⟩)]
  simp only [Frame.close, List.append_nil, List.reverse_reverse, Derivation.tree, whole.position,
    blanks.position, before₁.position, before₃.position, TagStart.start, TagStart.attributesAt,
    TagStart.text, List.append_assoc]
  rfl

theorem loop_isRead {start : LoopStart} {last left right : Blanks} {body : List Derivation}
    (ih : ∀ n ∈ body, n.IsRead) (not_end : ∀ n ∈ body, ¬n.IsReferenceTo "end") :
    (Derivation.loop start body last left right).IsRead := by
  intro frames c d _ whole
  let word : Braced := ⟨left, .end_, right⟩
  have word_ne : word.name.string ≠ "for" := by
    show Name.end_.string ≠ "for"
    decide
  have text : (Derivation.loop start body last left right).text =
      start.before.text ++ (['{'] ++ start.left.text ++ ['f', 'o', 'r'] ++ start.header.text) ++
        Derivation.textAll body ++ last.text ++ word.text := by
    simp [Derivation.text, LoopStart.text, Braced.text, word, Name.end_]
  obtain ⟨c₃, before₃, closing⟩ := Cursor.Reads.append_iff.mp (text ▸ whole)
  obtain ⟨c₂, before₂, blanks₂⟩ := Cursor.Reads.append_iff.mp before₃
  obtain ⟨c₁, before₁, inner⟩ := Cursor.Reads.append_iff.mp before₂
  obtain ⟨m, blanks, head⟩ := Cursor.Reads.append_iff.mp before₁
  have h : braces frames m = .ok _ c₁ :=
    braces_eq_ok_iff.mpr <| .inr ⟨start.left, start.header, head, rfl⟩
  rw [run_of_item blanks (item_eq_ok_iff.mpr <| .inr h), Progress.resume,
    run_body ih (fun n hn _ => not_end n hn) inner]
  have g (frames : List Frame) : braces frames c₃ = .ok _ d :=
    braces_eq_ok_iff.mpr <| .inl ⟨word, word_ne, closing, rfl⟩
  rw [run_of_item blanks₂ (item_eq_ok_iff.mpr <| .inr (g _)), loopFrame]
  dsimp only
  rw [completeVariable_end rfl]
  simp only [Frame.close, List.append_nil, List.reverse_reverse, Derivation.tree, blanks.position,
    before₁.position, before₃.position, LoopStart.start, LoopStart.collectionAt, LoopStart.text,
    Braced.variable, Name.variable, Bytes.length_append, Nat.add_assoc, word, Name.end_]

theorem isRead_of_proper {n : Derivation} (proper : n.Proper) : n.IsRead := by
  induction proper with
  | reference ne      => exact reference_isRead ne
  | element _ ih      => exact element_isRead ih
  | loop _ not_end ih => exact loop_isRead ih not_end

end State
end MarkupTemplate
