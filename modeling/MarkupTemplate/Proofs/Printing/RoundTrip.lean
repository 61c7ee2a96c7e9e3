import MarkupTemplate.Proofs.Grammar.Acceptance
import MarkupTemplate.Proofs.Printing.WellFormed
import MarkupTemplate.Tree.Printer

/-!
Printing and reading. What is read is well-formed (`Derivation.Proper.wellFormed`), and what is
well-formed is printed as a text that derives it (`Tree.exists_derivation`). Hence printing and
reading back gives the same tree exactly for the trees that are well-formed.
-/

namespace MarkupTemplate

namespace Derivation

theorem shapes_eq_map (ds : List Derivation) : shapes ds = ds.map shape := by
  induction ds with
  | nil => rfl
  | cons d ds ih => rw [shapes, ih, List.map_cons]

theorem isReferenceTo_shape_iff {d : Derivation} {x : String} :
    d.shape.IsReferenceTo x ↔ d.IsReferenceTo x := by
  cases d <;> simp [shape, Tree.IsReferenceTo, IsReferenceTo]

theorem mem_attributes {as : List (Blanks × Assignment)} {a : String × Shape}
    (h : a ∈ Attributes.settled (as.map fun a =>
      (a.2.name.string, ⟨(), .var a.2.value.name.string⟩))) :
    IsName a.1 ∧ ∃ n : Name, a.2 = ⟨(), .var n.string⟩ := by
  obtain ⟨b, -, rfl⟩ := List.mem_map.mp (Attributes.mem_of_mem_settled h)
  exact ⟨b.2.name.isName, b.2.value.name, rfl⟩

theorem Proper.not_for {d : Derivation} (h : d.Proper) : ¬d.IsReferenceTo "for" := by
  cases h with
  | reference ne => exact ne
  | _            => exact id

theorem Proper.sound {d : Derivation} (h : d.Proper) : d.shape.Sound := by
  induction h with
  | reference => exact .var (Name.isName _)
  | @element start gap body last proper ih =>
    rw [shape, shapes_eq_map]
    refine .element start.tag.isName (fun a ha => ?_) (fun a ha => ?_) ?_ ?_
    · have ⟨name, _, value⟩ := mem_attributes ha
      exact ⟨name, _, congrArg Tree.node value⟩
    · have ⟨_, n, value⟩ := mem_attributes ha
      exact value ▸ .var n.isName
    · simpa using ih
    · simpa [isReferenceTo_shape_iff] using fun d hd => (proper d hd).not_for
  | @loop start body last left right proper not_end ih =>
    rw [shape, shapes_eq_map]
    refine .loop start.header.binder.isName ⟨_, rfl⟩ (.var (Name.isName _)) ?_ ?_
    · simpa using ih
    · simpa [isReferenceTo_shape_iff] using fun d hd => ⟨(proper d hd).not_for, not_end d hd⟩

theorem Proper.keyed {d : Derivation} (h : d.Proper) : d.shape.Keyed := by
  induction h with
  | reference => exact .var
  | element _ ih =>
    rw [shape, shapes_eq_map]
    refine .element (Attributes.nodup_names_settled _) (fun a ha => ?_) (by simpa using ih)
    have ⟨_, _, value⟩ := mem_attributes ha
    exact value ▸ .var
  | loop _ _ ih =>
    rw [shape, shapes_eq_map]
    exact .loop .var (by simpa using ih)

theorem Proper.wellFormed {d : Derivation} (h : d.Proper) : d.shape.WellFormed where
  sound   := h.sound
  not_for := mt isReferenceTo_shape_iff.mp h.not_for

end Derivation

namespace Tree

theorem Sound.exists_name {t : Shape} (sound : t.Sound) (variable' : t.IsVariable) :
    ∃ n : Name, t = ⟨(), .var n.string⟩ := by
  cases sound with
  | var hx =>
    obtain ⟨n, rfl⟩ := hx.exists_name
    exact ⟨n, rfl⟩
  | _ => cases variable' with | intro _ h => cases h

-- The name of a variable in braces, as it is printed.
def spaced (n : Name) : Braced :=
  ⟨Gap.space.toBlanks, n, Gap.space.toBlanks⟩

theorem exists_assignments {as : Attributes Shape} (sound : ∀ a ∈ as, IsName a.1 ∧ a.2.IsVariable)
    (sound' : ∀ a ∈ as, a.2.Sound) :
    ∃ bs : List (Blanks × Assignment), (∀ b ∈ bs, b.1.text ≠ []) ∧
      (bs.flatMap fun b => b.1.text ++ b.2.text) = (printAttributes as).toList ∧
      (bs.map fun b => (b.2.name.string, ⟨(), .var b.2.value.name.string⟩)) = as := by
  induction as with
  | nil => exact ⟨[], nofun, by simp [printAttributes], rfl⟩
  | cons a as ih =>
    obtain ⟨ha, has⟩ := List.forall_mem_cons.mp sound
    obtain ⟨ha', has'⟩ := List.forall_mem_cons.mp sound'
    obtain ⟨bs, parted, text, rfl⟩ := ih has has'
    obtain ⟨x, t⟩ := a
    obtain ⟨n, rfl⟩ := ha.1.exists_name
    obtain ⟨m, rfl⟩ := ha'.exists_name ha.2
    let b : Blanks × Assignment := (Gap.space.toBlanks, ⟨n, .none, .none, spaced m⟩)
    refine ⟨b :: bs, List.forall_mem_cons.mpr ⟨Gap.space.nonempty, parted⟩, ?_, rfl⟩
    rw [List.flatMap_cons, text]
    simp [b, spaced, Assignment.text, Braced.text, printAttributes, bare]

theorem exists_derivations {ts : List Shape}
    (h : ∀ t ∈ ts, ∃ d : Derivation, d.Proper ∧ d.text = t.print.toList ∧ d.shape = t) :
    ∃ ds : List Derivation, (∀ d ∈ ds, d.Proper) ∧
      Derivation.textAll ds = (printBody ts).toList ∧ ds.map Derivation.shape = ts := by
  induction ts with
  | nil => exact ⟨[], nofun, by simp [Derivation.textAll, printBody], rfl⟩
  | cons t ts ih =>
    obtain ⟨ht, hts⟩ := List.forall_mem_cons.mp h
    obtain ⟨d, proper, text, shape⟩ := ht
    obtain ⟨ds, propers, texts, shapes⟩ := ih hts
    refine ⟨d :: ds, List.forall_mem_cons.mpr ⟨proper, propers⟩, ?_, ?_⟩
    · simp [Derivation.textAll, printBody, text, texts]
    · rw [List.map_cons, shape, shapes]

theorem exists_derivation {t : Shape} (sound : t.Sound) (keyed : t.Keyed)
    (not_for : ¬t.IsReferenceTo "for") :
    ∃ d : Derivation, d.Proper ∧ d.text = t.print.toList ∧ d.shape = t := by
  induction sound with
  | var hx =>
    obtain ⟨n, rfl⟩ := hx.exists_name
    have ne : n.string ≠ "for" := fun eq => not_for (congrArg Node.var eq)
    refine ⟨.reference .none (spaced n), .reference ne, ?_, rfl⟩
    simp [Derivation.text, spaced, Braced.text, print]
  | element htag values sounds _ not_for' _ ihB =>
    cases keyed with | element nodup _ keyed =>
    obtain ⟨tag, rfl⟩ := htag.exists_name
    obtain ⟨as, parted, texts, rfl⟩ := exists_assignments values sounds
    obtain ⟨ds, propers, body, rfl⟩ :=
      exists_derivations fun t ht => ihB t ht (keyed t ht) (not_for' t ht)
    let start : TagStart := ⟨.none, tag, as, fun a ha => parted a (List.mem_of_mem_head? ha)⟩
    refine ⟨.element start .none ds .none, .element propers, ?_, ?_⟩
    · simp [Derivation.text, TagStart.text, start, texts, body, print]
    · rw [Derivation.shape, Attributes.settled_eq_self nodup, Derivation.shapes_eq_map]
  | loop hbinder value sound _ other _ ihB =>
    cases keyed with | loop _ keyed =>
    obtain ⟨binder, rfl⟩ := hbinder.exists_name
    obtain ⟨collection, rfl⟩ := sound.exists_name value
    obtain ⟨ds, propers, body, rfl⟩ :=
      exists_derivations fun t ht => ihB t ht (keyed t ht) (other t ht).1
    let space := Gap.space.toBlanks
    let start : LoopStart :=
      ⟨.none, space, ⟨.space, binder, .space, space, collection, space⟩⟩
    have not_end : ∀ d ∈ ds, ¬d.IsReferenceTo "end" := fun d hd ref =>
      (other d.shape (List.mem_map_of_mem hd)).2 (Derivation.isReferenceTo_shape_iff.mpr ref)
    refine ⟨.loop start ds .none space space, .loop propers not_end, ?_, ?_⟩
    · simp [Derivation.text, LoopStart.text, LoopHeader.text, start, space, body, print, bare]
    · rw [Derivation.shape, Derivation.shapes_eq_map]

theorem exists_parse_print {t : Shape} (keyed : t.Keyed) (wellFormed : t.WellFormed) :
    ∃ u, parse t.print = .ok u ∧ u.shape = t := by
  have ⟨d, proper, text, shape⟩ := exists_derivation wellFormed.sound keyed wellFormed.not_for
  exact ((parse_iff_derives _).1 t).mpr ⟨d, .none, proper, by simp [text], shape⟩

theorem keyed_of_parse {source : String} {u : Tree Span} (h : parse source = .ok u) :
    u.shape.Keyed ∧ u.shape.WellFormed := by
  obtain ⟨d, _, proper, _, rfl⟩ := parse_eq_ok_iff.mp h
  exact d.shape_tree 0 ▸ ⟨proper.keyed, proper.wellFormed⟩

theorem sound_of_parse {source : String} {t : Tree Span} (h : parse source = .ok t) : t.Sound :=
  (keyed_of_parse h).2.sound.of_map

-- The attributes of a shape are a plain list here, so that they are a map is said explicitly.
theorem parse_print_iff :
    (∀ t : Shape, (∃ u, parse t.print = .ok u ∧ u.shape.alike t) ↔ t.Keyed ∧ t.WellFormed) ∧
    (∀ t : Shape, t.Keyed → t.WellFormed → ∃ u, parse t.print = .ok u ∧ u.shape = t) ∧
    (∀ source u, parse source = .ok u → u.shape.Keyed ∧ u.shape.WellFormed ∧
      ∃ v, parse u.shape.print = .ok v ∧ v.shape = u.shape ∧ v.shape.print = u.shape.print) := by
  refine ⟨fun t => ⟨?_, ?_⟩, fun t => exists_parse_print, fun source u h => ?_⟩
  · rintro ⟨u, h, alike⟩
    have ⟨keyed, wellFormed⟩ := keyed_of_parse h
    exact ⟨keyed.of_alike alike, wellFormed.of_alike alike⟩
  · rintro ⟨keyed, wellFormed⟩
    have ⟨u, h, eq⟩ := exists_parse_print keyed wellFormed
    exact ⟨u, h, eq ▸ alike_refl _⟩
  · have ⟨keyed, wellFormed⟩ := keyed_of_parse h
    have ⟨v, h', eq⟩ := exists_parse_print keyed wellFormed
    exact ⟨keyed, wellFormed, v, h', eq, congrArg print eq⟩

-- Inside an element, as a value and as a collection the words of the grammar are names.
theorem parse_print_words :
    let t : Shape := ⟨(), .element "in" [("for", ⟨(), .var "end"⟩)]
      [⟨(), .var "end"⟩, ⟨(), .loop "end" ⟨(), .var "for"⟩ [⟨(), .var "in"⟩]⟩]⟩
    ∃ u, parse t.print = .ok u ∧ u.shape = t := by
  have for_ : IsName "for" := Name.for_.isName
  have in_ : IsName "in" := Name.in_.isName
  have end_ : IsName "end" := Name.end_.isName
  refine parse_print_iff.2.1 _ ?_ ⟨?_, nofun⟩
  case refine_1 =>
    exact .element (by decide) (by simpa using .var)
      (by simpa using ⟨.var, .loop .var (by simpa using .var)⟩)
  case refine_2 =>
    let loop : Shape := ⟨(), .loop "end" ⟨(), .var "for"⟩ [⟨(), .var "in"⟩]⟩
    have loop_sound : loop.Sound :=
      .loop end_ ⟨_, rfl⟩ (.var for_) (by simpa using .var in_) (by simp [IsReferenceTo])
    exact .element in_ (by simpa using ⟨for_, _, rfl⟩) (by simpa using .var end_)
      (by simpa using ⟨.var end_, loop_sound⟩) (by simp [IsReferenceTo])

end Tree
end MarkupTemplate
