import MarkupTemplate.Proofs.Place.Nesting
import MarkupTemplate.Proofs.Place.Shift
import MarkupTemplate.Proofs.Printing.RoundTrip

/-!
Reading a node again from its own text. What stands around a node does not tell how it is read, and
so `parse_again` finds the same tree there, with all spans moved. `Derivation.proper_of_sound` is
what makes up for what is forgotten on the way from the root to the node.
-/

namespace MarkupTemplate

variable {source : String} {p : Nat}

namespace Derivation

theorem isReferenceTo_tree_iff {d : Derivation} {x : String} :
    (d.tree p).IsReferenceTo x ↔ d.IsReferenceTo x := by
  rw [← isReferenceTo_shape_iff, ← d.shape_tree p]
  exact Tree.isReferenceTo_map_iff.symm

theorem exists_mem_trees {ds : List Derivation} {d : Derivation} (hd : d ∈ ds) (p : Nat) :
    ∃ q, d.tree q ∈ trees p ds := by
  induction ds generalizing p with
  | nil => cases hd
  | cons e ds ih =>
    cases hd
    case head => exact ⟨p, List.mem_cons_self⟩
    case tail hd =>
      have ⟨q, mem⟩ := ih hd (p + Bytes.length e.text)
      exact ⟨q, List.mem_cons_of_mem _ mem⟩

theorem proper_of_sound {d : Derivation} (sound : (d.tree p).Sound)
    (not_for : ¬d.IsReferenceTo "for") : d.Proper := by
  generalize eq : d.tree p = t at sound
  induction sound generalizing d p with
  | var =>
    cases d
    case reference => exact .reference not_for
    all_goals cases eq
  | element _ _ _ _ not_for _ ih =>
    cases d
    case element start gap body _ =>
      cases eq
      refine .element fun d hd => ?_
      have ⟨q, mem⟩ := exists_mem_trees hd (p + Bytes.length (start.text ++ gap.text ++ ['>']))
      exact ih _ mem (mt isReferenceTo_tree_iff.mpr (not_for _ mem)) rfl
    all_goals cases eq
  | loop _ _ _ _ other _ ih =>
    cases d
    case loop start body _ _ _ =>
      cases eq
      refine .loop (fun d hd => ?_) fun d hd => ?_
      all_goals have ⟨q, mem⟩ := exists_mem_trees hd (p + Bytes.length start.text)
      · exact ih _ mem (mt isReferenceTo_tree_iff.mpr (other _ mem).1) rfl
      · exact mt isReferenceTo_tree_iff.mpr (other _ mem).2
    all_goals cases eq

end Derivation

theorem Name.parse_braced {n : Name} (not_for : n.string ≠ "for") :
    Tree.parse ("\x7b" ++ n.string ++ "\x7d") = .ok (n.variable 1) := by
  let d : Derivation := .reference .none ⟨.none, n, .none⟩
  have text : ("\x7b" ++ n.string ++ "\x7d").toList = d.text ++ Blanks.none.text := by
    simp [d, Derivation.text, Braced.text]
  exact Tree.parse_eq_ok_iff.mpr ⟨d, .none, .reference not_for, text, rfl⟩

-- The header of the loop without the blanks before it.
def LoopStart.flush (s : LoopStart) : LoopStart where
  before := .none
  left   := .none
  header := s.header

namespace Derivation

variable {gap last left right : Blanks} {body : List Derivation}

theorem tree_flush (start : TagStart) (gap : Blanks) (body : List Derivation) (last : Blanks)
    (p : Nat) : (element start.flush gap body last).tree (start.start p) =
      (element start gap body last).tree p := by
  have none : start.flush.start (start.start p) = start.start p := rfl
  have attributes : start.flush.attributesAt (start.start p) = start.attributesAt p := by
    rw [TagStart.attributesAt_eq, TagStart.attributesAt_eq]
    rfl
  simp only [tree, none, attributes]
  simp [TagStart.start, text, start.text_eq_flush, TagStart.flush, Nat.add_assoc]

-- The brace is one byte before the loop.
theorem tree_flush_loop (start : LoopStart) (body : List Derivation) (last left right : Blanks)
    (p : Nat) : (loop start.flush body last left .none).tree (start.start p) =
      (loop start body last left right).tree (p + 1) := by
  have sign : '{'.utf8Size = 1 := rfl
  have first : start.flush.start (start.start p) = start.start (p + 1) := by
    simp [LoopStart.start, LoopStart.flush, sign]
    omega
  have text : start.start p + Bytes.length start.flush.text =
      p + 1 + Bytes.length start.text := by
    simp [LoopStart.start, LoopStart.text, LoopStart.flush, sign]
    omega
  have header : start.flush.header = start.header := rfl
  simp [tree, LoopStart.collectionAt, first, header, ← Nat.add_assoc, text]

theorem parse_own_element {start : TagStart} (proper : (element start gap body last).Proper) :
    Tree.parse (.ofList (element start gap body last).own) =
      .ok ((element start.flush gap body last).tree 0) := by
  cases proper with
  | element propers =>
    refine Tree.parse_eq_ok_iff.mpr ⟨_, .none, .element propers, ?_, rfl⟩
    simp [own, text, TagStart.flush]

theorem parse_own_loop {start : LoopStart} (proper : (loop start body last left right).Proper) :
    Tree.parse ("\x7b" ++ .ofList (loop start body last left right).own ++ "\x7d") =
      .ok ((loop start.flush body last left .none).tree 0) := by
  cases proper with
  | loop propers not_end =>
    refine Tree.parse_eq_ok_iff.mpr ⟨_, .none, .loop propers not_end, ?_, rfl⟩
    simp [own, text, LoopStart.text, LoopStart.flush]

end Derivation

namespace Tree

variable {t u : Tree Span} {path : List Turn}

-- Read from `text` there is the same tree, but for where it stands. The braces around a loop or a
-- name are not part of its text, and have to be put back.
def ReadsFrom (text : String) (t : Tree Span) : Prop :=
  match t.node with
  | .var x      =>
    x ≠ "for" → parse ("\x7b" ++ text ++ "\x7d") = .ok ⟨⟨1, 1 + x.utf8ByteSize⟩, .var x⟩
  | .element .. => ∃ u, parse text = .ok u ∧ u.map (Span.shift t.site.start) = t
  | .loop ..    =>
    ∃ u, parse ("\x7b" ++ text ++ "\x7d") = .ok u ∧
      u.map (Span.shift t.site.start) = t.map (Span.shift 1)

theorem readsFrom_variable (n : Name) (p : Nat) : (n.variable p).ReadsFrom n.string := by
  intro (not_for : n.string ≠ "for")
  rw [Name.parse_braced not_for, Name.variable]
  simp [← Bytes.length_toList]

theorem readsFrom_tree {d : Derivation} (sound : (d.tree p).Sound) :
    (d.tree p).ReadsFrom (.ofList d.own) := by
  cases d
  case reference before name => exact readsFrom_variable name.name _
  case element start gap body last =>
    refine ⟨_, Derivation.parse_own_element (Derivation.proper_of_sound sound id), ?_⟩
    rw [← Derivation.tree_add, Nat.zero_add]
    exact Derivation.tree_flush start gap body last p
  case loop start body last left right =>
    refine ⟨_, Derivation.parse_own_loop (Derivation.proper_of_sound sound id), ?_⟩
    rw [← Derivation.tree_add, ← Derivation.tree_add, Nat.zero_add]
    exact Derivation.tree_flush_loop start body last left right p

theorem parse_again (parsed : parse source = .ok t) (here : t.at? path = some u) :
    ∃ text, u.site.Covers source text ∧ u.ReadsFrom text := by
  have located : Located source u := (located_of_parse parsed).of_at? here
  have sound : u.Sound := of_at? Sound.of_mem_children (sound_of_parse parsed) here
  cases located
  case name n p h => exact ⟨_, h.covers, readsFrom_variable n p⟩
  case node d p h => exact ⟨_, Derivation.covers_tree h, readsFrom_tree sound⟩

-- A tag in a loop in a tag, and the word that ends the loop as a name in it.
theorem parse_again_nested :
    let source := "<p>\x7bfor é in és\x7d<b x=\x7bé\x7d>\x7bend\x7d</b>\x7bend\x7d</p>"
    let name : Tree Span := ⟨⟨29, 32⟩, .var "end"⟩
    let tag : Tree Span := ⟨⟨18, 37⟩, .element "b" [("x", ⟨⟨24, 26⟩, .var "é"⟩)] [name]⟩
    let loop : Tree Span := ⟨⟨4, 41⟩, .loop "é" ⟨⟨14, 17⟩, .var "és"⟩ [tag]⟩
    parse source = .ok ⟨⟨0, 46⟩, .element "p" [] [loop]⟩ ∧
      ∀ u ∈ [loop, tag, name], ∃ text, u.site.Covers source text ∧ u.ReadsFrom text := by
  intro source name tag loop
  let t : Tree Span := ⟨⟨0, 46⟩, .element "p" [] [loop]⟩
  have parsed : parse source = .ok t := by decide +kernel
  have again {path : List Turn} {u : Tree Span} (here : t.at? path = some u) :
      ∃ text, u.site.Covers source text ∧ u.ReadsFrom text :=
    parse_again parsed here
  refine ⟨parsed, ?_⟩
  simp only [List.forall_mem_cons]
  exact ⟨again (rfl : t.at? [.child 0] = loop), again (rfl : t.at? [.child 0, .child 0] = tag),
    again (rfl : t.at? [.child 0, .child 0, .child 0] = name), nofun⟩

end Tree
end MarkupTemplate
