import Mathlib.Data.List.Nodup
import Mathlib.Data.List.Pairwise
import MarkupTemplate.Proofs.Grammar.Acceptance
import MarkupTemplate.Proofs.Place.Covers
import MarkupTemplate.Proofs.Place.Path

/-!
The spans of a tree that was read. Each node has the span of its own text, the parts of a node lie
inside it, and they lie there in the order in which they are written. `Located` is the invariant on
the way down from the root: what stands below a located node is located too.
-/

namespace MarkupTemplate

variable {source : String} {p : Nat}

-- The values of the attributes in the order in which they are written, if the tag starts at `p`.
def TagStart.written (s : TagStart) (p : Nat) : List (String × Tree Span) :=
  Assignment.entries (p + Bytes.length (['<'] ++ s.tag.text)) s.attributes

namespace Node

-- How the text of a node begins and ends, if it starts at `p`. Of several values of an attribute
-- the element has the one that is written last.
def WrittenAs (p : Nat) (text : String) : Node (Tree Span) → Prop
  | var x => text = x
  | element tag attributes _ =>
    (∃ rest : String, text = "<" ++ tag ++ rest ∧ Leads (!isAlphabetic ·) rest.toList) ∧
    (∃ front : String, text = front ++ ("</" ++ tag ++ ">")) ∧
    ∃ (start : TagStart) (gap : Blanks) (rest : List Char), start.tag.string = tag ∧
      text.toList = start.text ++ gap.text ++ ['>'] ++ rest ∧
        attributes = Attributes.settled (start.written p)
  | loop .. =>
    (∃ rest : String, text = "for" ++ rest ∧ Leads (!isAlphabetic ·) rest.toList) ∧
      ∃ front : String, text = front ++ "end"

-- Attributes need not be in the order of their values: a name keeps the place of its first value.
def Ordered : Node (Tree Span) → Prop
  | var _ => True
  | element _ attributes body =>
    attributes.Pairwise (fun a b => a.2.site.Apart b.2.site) ∧
      (∀ a ∈ attributes, ∀ t ∈ body, a.2.site.Before t.site) ∧
        body.Pairwise fun t u => t.site.Before u.site
  | loop _ collection body =>
    (∀ t ∈ body, collection.site.Before t.site) ∧ body.Pairwise fun t u => t.site.Before u.site

end Node

structure Tree.Exact (source : String) (t : Tree Span) : Prop where
  fits    : t.site.Fits source
  written : ∃ text, t.site.Covers source text ∧ t.node.WrittenAs t.site.start text
  inside  : ∀ u ∈ t.node.children, u.site.Inside t.site
  ordered : t.node.Ordered

-- A node that stands in the source where its span says.
inductive Located (source : String) : Tree Span → Prop where
  | name {n : Name} {p : Nat} : StandsAt source p n.text → Located source (n.variable p)
  | node {d : Derivation} {p : Nat} : StandsAt source p d.text → Located source (d.tree p)

theorem Bytes.length_pos {cs : List Char} (ne : cs ≠ []) : 0 < Bytes.length cs := by
  cases cs
  case nil       => contradiction
  case cons c cs => exact Nat.lt_of_lt_of_le c.utf8Size_pos (Nat.le_add_right _ _)

theorem Leads.not_of_ne_nil {q : Char → Bool} {cs : List Char} (h : ¬Leads q cs) (ne : cs ≠ []) :
    Leads (!q ·) cs := by
  cases cs
  case nil  => contradiction
  case cons => simpa using h

namespace Name

variable {n : Name}

theorem start_lt_stop (n : Name) (p : Nat) : (n.variable p).site.start < (n.variable p).site.stop :=
  Nat.lt_add_of_pos_right (Bytes.length_pos n.nonempty)

theorem exact_variable (h : StandsAt source p n.text) : (n.variable p).Exact source where
  fits    := h.covers.fits (fun eq => n.nonempty (by simpa using congrArg String.toList eq))
  written := ⟨_, h.covers, rfl⟩
  inside  := nofun
  ordered := trivial

end Name

namespace Assignment

theorem inOrder_entries (p : Nat) (as : List (Blanks × Assignment)) :
    Span.InOrder p ((entries p as).map (·.2.site))
      (p + Bytes.length (as.flatMap fun a => a.1.text ++ a.2.text)) := by
  induction as generalizing p with
  | nil => exact Nat.le_refl _
  | cons a as ih =>
    obtain ⟨b, a⟩ := a
    refine ⟨?_, Name.start_lt_stop .., (ih _).weaken ?_ ?_⟩ <;>
      simp [entry, Braced.variable, Name.variable, text, Braced.text] <;> omega

theorem located_entries {as : List (Blanks × Assignment)} {a : String × Tree Span}
    (h : StandsAt source p (as.flatMap fun a => a.1.text ++ a.2.text)) (ha : a ∈ entries p as) :
    Located source a.2 := by
  induction as generalizing p with
  | nil => cases ha
  | cons b as ih =>
    obtain ⟨b, c⟩ := b
    have h : StandsAt source p (b.text ++ c.text ++ as.flatMap fun a => a.1.text ++ a.2.text) := h
    cases ha
    case tail ha => exact ih h.right ha
    case head    =>
      have braced := h.left.right.right
      exact .name braced.left.left.right

end Assignment

namespace TagStart

-- The tag without the blanks before it.
def flush (s : TagStart) : TagStart where
  before     := .none
  tag        := s.tag
  attributes := s.attributes
  parted     := s.parted

theorem text_eq_flush (s : TagStart) : s.text = s.before.text ++ s.flush.text := by
  simp [text, flush]

theorem attributesAt_eq (s : TagStart) (p : Nat) :
    s.attributesAt p = Attributes.settled (s.flush.written (s.start p)) := by
  rw [attributesAt, Attributes.ofList_eq_settled, written, start]
  simp [flush, Nat.add_assoc]

-- The first byte of the tag is its sign.
theorem inOrder_written (s : TagStart) (p : Nat) :
    Span.InOrder (p + 1) ((s.flush.written p).map (·.2.site))
      (p + Bytes.length s.flush.text) := by
  have sign : '<'.utf8Size = 1 := rfl
  apply (Assignment.inOrder_entries ..).weaken <;> simp [text, flush, sign]
  all_goals omega

-- What follows the name of the tag is no letter.
theorem leads_not_isAlphabetic (s : TagStart) (gap : Blanks) (cs : List Char) :
    Leads (!isAlphabetic ·) ((s.attributes.flatMap fun a => a.1.text ++ a.2.text) ++
      (gap.text ++ ['>'] ++ cs)) := by
  apply Leads.not_of_ne_nil
  case ne => simp
  cases h : s.attributes
  case nil =>
    simpa using gap.not_leads_isAlphabetic (by simp [not_isAlphabetic_of_mem_signs '>' (by decide)])
  case cons a as =>
    simpa using Gap.not_leads_isAlphabetic ⟨a.1, s.parted a (by rw [h]; rfl)⟩ _

end TagStart

namespace Derivation

theorem site_tree (d : Derivation) (p : Nat) : p ≤ (d.tree p).site.start ∧
    (d.tree p).site.start < (d.tree p).site.stop ∧
      (d.tree p).site.stop ≤ p + Bytes.length d.text := by
  cases d with
  | reference before name =>
    refine ⟨?_, Name.start_lt_stop .., ?_⟩ <;>
      simp [tree, Braced.variable, Name.variable, text, Braced.text] <;> omega
  | element start =>
    have := Bytes.length_pos start.tag.nonempty
    simp [tree, TagStart.start, text, TagStart.text]
    omega
  | loop start =>
    have := 'f'.utf8Size_pos
    simp [tree, LoopStart.start, text, LoopStart.text]
    omega

theorem inOrder_trees (p : Nat) (ds : List Derivation) :
    Span.InOrder p ((trees p ds).map (·.site)) (p + Bytes.length (textAll ds)) := by
  induction ds generalizing p with
  | nil => exact Nat.le_refl _
  | cons d ds ih =>
    have ⟨after, nonempty, within⟩ := d.site_tree p
    refine ⟨after, nonempty, (ih _).weaken within ?_⟩
    simp [textAll, Nat.add_assoc]

theorem located_trees {ds : List Derivation} {t : Tree Span}
    (h : StandsAt source p (textAll ds)) (ht : t ∈ trees p ds) : Located source t := by
  induction ds generalizing p with
  | nil => cases ht
  | cons d ds ih =>
    have h : StandsAt source p (d.text ++ textAll ds) := h
    cases ht
    case head    => exact .node h.left
    case tail ht => exact ih h.right ht

end Derivation

theorem Attributes.apart_settled {as : List (String × Tree Span)}
    (h : as.Pairwise fun a b => a.2.site.Before b.2.site) :
    (settled as).Pairwise fun a b => a.2.site.Apart b.2.site := by
  have symm : Std.Symm fun a b : String × Tree Span => a.2.site.Apart b.2.site :=
    ⟨fun _ _ => Or.symm⟩
  have apart := (h.imp (S := fun a b => a.2.site.Apart b.2.site) Or.inl).forall
  have nodup : (settled as).Nodup := .of_map _ (nodup_names_settled as)
  exact nodup.pairwise_of_forall_ne fun a ha b hb =>
    apart (mem_of_mem_settled ha) (mem_of_mem_settled hb)

namespace Derivation

-- The text of the node itself, without the blanks or the brace before it and the brace behind it.
def own : Derivation → List Char
  | reference _ name => name.name.text
  | element start gap body last =>
    start.flush.text ++ gap.text ++ ['>'] ++ textAll body ++ last.text ++
      ['<', '/'] ++ start.tag.text ++ ['>']
  | loop start body last left _ =>
    ['f', 'o', 'r'] ++ start.header.text ++ textAll body ++ last.text ++
      ['{'] ++ left.text ++ ['e', 'n', 'd']

variable {d : Derivation}

theorem standsAt_own (h : StandsAt source p d.text) :
    StandsAt source (d.tree p).site.start d.own := by
  cases d
  case reference before name => exact h.right.left.left.right
  case element start gap body last =>
    have text : (element start gap body last).text =
        start.before.text ++ (element start gap body last).own := by
      simp [text, start.text_eq_flush, own]
    exact (text ▸ h).right
  case loop start body last left right =>
    have text : (loop start body last left right).text = start.before.text ++ ['{'] ++
        start.left.text ++ ((loop start body last left right).own ++ (right.text ++ ['}'])) := by
      simp [text, LoopStart.text, own]
    exact (text ▸ h).right.left

theorem stop_tree (d : Derivation) (p : Nat) :
    (d.tree p).site.stop = (d.tree p).site.start + Bytes.length d.own := by
  cases d
  case reference => rfl
  case element start _ _ _ =>
    simp [tree, TagStart.start, text, own, start.text_eq_flush, Nat.add_assoc]
  case loop => simp [tree, LoopStart.start, LoopStart.text, own, Nat.add_assoc]

theorem covers_tree (h : StandsAt source p d.text) :
    (d.tree p).site.Covers source (.ofList d.own) := by
  have covers := (standsAt_own h).covers
  rwa [← stop_tree] at covers

theorem writtenAs_tree (d : Derivation) (p : Nat) :
    (d.tree p).node.WrittenAs (d.tree p).site.start (.ofList d.own) := by
  cases d
  case reference => rfl
  case element start gap body last =>
    let inner := textAll body ++ last.text ++ ['<', '/'] ++ start.tag.text ++ ['>']
    have begins := start.leads_not_isAlphabetic gap inner
    refine ⟨?begins, ?ends, start.flush, gap, inner, rfl, ?text, start.attributesAt_eq p⟩
    case begins =>
      refine ⟨.ofList _, ?_, by simpa using begins⟩
      apply String.toList_inj.mp
      simp [own, TagStart.text, TagStart.flush, inner]
    case ends =>
      refine ⟨.ofList (start.flush.text ++ gap.text ++ ['>'] ++ textAll body ++ last.text), ?_⟩
      apply String.toList_inj.mp
      simp [own]
    case text => simp [own, inner]
  case loop start body last left right =>
    refine ⟨⟨.ofList (start.header.text ++ textAll body ++ last.text ++ ['{'] ++ left.text ++
      ['e', 'n', 'd']), ?_, ?begins⟩, .ofList (['f', 'o', 'r'] ++ start.header.text ++
        textAll body ++ last.text ++ ['{'] ++ left.text), ?_⟩
    case begins =>
      apply Leads.not_of_ne_nil
      all_goals simp only [LoopHeader.text, List.append_assoc, String.toList_ofList]
      case h  => apply Gap.not_leads_isAlphabetic
      case ne => simp
    all_goals
      apply String.toList_inj.mp
      simp [own]

theorem inOrder_element (start : TagStart) (gap : Blanks) (body : List Derivation) (p : Nat) :
    Span.InOrder (start.start p + 1)
      ((start.flush.written (start.start p)).map (·.2.site) ++
        (trees (p + Bytes.length (start.text ++ gap.text ++ ['>'])) body).map (·.site))
      (p + Bytes.length (start.text ++ gap.text ++ ['>'] ++ textAll body)) := by
  apply (start.inOrder_written _).append
  apply (inOrder_trees ..).weaken <;> simp [start.text_eq_flush, TagStart.start, Nat.add_assoc]

theorem inOrder_loop (start : LoopStart) (body : List Derivation) (p : Nat) :
    Span.InOrder (start.start p + 1)
      ((start.collectionAt p).site ::
        (trees (p + Bytes.length start.text) body).map (·.site))
      (p + Bytes.length (start.text ++ textAll body)) := by
  refine ⟨?_, Name.start_lt_stop .., (inOrder_trees ..).weaken ?_ ?_⟩
  all_goals
    have := 'f'.utf8Size_pos
    simp [LoopStart.start, LoopStart.collectionAt, LoopHeader.collectionAt, Name.variable,
      LoopStart.text, LoopHeader.text]
    omega

theorem ordered_tree (d : Derivation) (p : Nat) : (d.tree p).node.Ordered := by
  cases d
  case reference => trivial
  case element start gap body last =>
    have ⟨values, bodies, apart⟩ :=
      List.pairwise_append.mp (inOrder_element start gap body p).pairwise
    refine ⟨?_, fun a ha t ht => ?_, List.pairwise_map.mp bodies⟩
    · rw [start.attributesAt_eq]
      exact Attributes.apart_settled (List.pairwise_map.mp values)
    · rw [start.attributesAt_eq] at ha
      have written := Attributes.mem_of_mem_settled ha
      exact apart _ (List.mem_map_of_mem written) _ (List.mem_map_of_mem ht)
  case loop start body _ _ _ =>
    have ⟨first, bodies⟩ := List.pairwise_cons.mp (inOrder_loop start body p).pairwise
    exact ⟨fun t ht => first _ (List.mem_map_of_mem ht), List.pairwise_map.mp bodies⟩

theorem inside_tree (d : Derivation) (p : Nat) :
    ∀ u ∈ (d.tree p).node.children, u.site.Inside (d.tree p).site := by
  cases d
  case reference => exact nofun
  case element start gap body last =>
    have within := (inOrder_element start gap body p).within
    intro u hu
    have mem : u.site ∈ (start.flush.written (start.start p)).map (·.2.site) ++
        (trees (p + Bytes.length (start.text ++ gap.text ++ ['>'])) body).map (·.site) := by
      cases List.mem_append.mp hu
      case inl hu =>
        obtain ⟨a, ha, eq⟩ := List.mem_map.mp hu
        rw [start.attributesAt_eq] at ha
        exact List.mem_append_left _ (eq ▸ List.mem_map_of_mem (Attributes.mem_of_mem_settled ha))
      case inr hu => exact List.mem_append_right _ (List.mem_map_of_mem hu)
    obtain ⟨after, before⟩ := within _ mem
    refine ⟨after, Nat.lt_of_le_of_lt before ?_⟩
    have := '>'.utf8Size_pos
    simp [tree, text]
    omega
  case loop start body last left right =>
    intro u hu
    obtain ⟨after, before⟩ := (inOrder_loop start body p).within _ (List.mem_map_of_mem hu)
    refine ⟨after, Nat.lt_of_le_of_lt before ?_⟩
    have := 'e'.utf8Size_pos
    simp [tree]
    omega

theorem own_ne_nil (d : Derivation) : d.own ≠ [] := by
  cases d
  case reference _ name => exact name.name.nonempty
  all_goals simp [own]

theorem exact_tree (h : StandsAt source p d.text) : (d.tree p).Exact source where
  fits    := (covers_tree h).fits (by simpa using d.own_ne_nil)
  written := ⟨_, covers_tree h, d.writtenAs_tree p⟩
  inside  := d.inside_tree p
  ordered := d.ordered_tree p

end Derivation

namespace Located

variable {t u : Tree Span}

theorem of_mem_children (h : Located source t) (hu : u ∈ t.node.children) : Located source u := by
  cases h
  case name => cases hu
  case node d p h =>
    cases d
    case reference => cases hu
    case element start gap body last =>
      have front : StandsAt source p (start.text ++ gap.text ++ ['>'] ++ Derivation.textAll body) :=
        h.left.left.left.left
      cases List.mem_append.mp hu
      case inl hu =>
        have ⟨a, ha, eq⟩ := List.mem_map.mp hu
        rw [TagStart.attributesAt, Attributes.ofList_eq_settled] at ha
        exact eq ▸ Assignment.located_entries front.left.left.left.right
          (Attributes.mem_of_mem_settled ha)
      case inr hu => exact Derivation.located_trees front.right hu
    case loop start body last left right =>
      have front : StandsAt source p (start.text ++ Derivation.textAll body) :=
        h.left.left.left.left.left.left
      cases hu
      case head =>
        have header : StandsAt source _ start.header.text := front.left.right
        rw [Bytes.length_append, ← Nat.add_assoc] at header
        exact .name header.left.left.right
      case tail hu => exact Derivation.located_trees front.right hu

theorem of_at? {path : List Turn} (h : Located source t) (hu : t.at? path = some u) :
    Located source u :=
  Tree.of_at? of_mem_children h hu

theorem exact (h : Located source t) : t.Exact source := by
  cases h
  case name h => exact Name.exact_variable h
  case node h => exact Derivation.exact_tree h

-- A variable has the span of its name.
theorem covers {s : Span} {x : String} (h : Located source ⟨s, .var x⟩) : s.Covers source x := by
  have ⟨text, covers, eq⟩ := h.exact.written
  exact eq ▸ covers

end Located

namespace Tree

theorem located_of_parse {t : Tree Span} (h : parse source = .ok t) : Located source t := by
  have ⟨n, after, _, text, eq⟩ := parse_eq_ok_iff.mp h
  exact eq ▸ .node ⟨[], after.text, text, rfl⟩

theorem exact_of_parse {t : Tree Span} (h : parse source = .ok t) :
    ∀ path u, t.at? path = some u → u.Exact source :=
  fun _ _ hu => ((located_of_parse h).of_at? hu).exact

-- Letters of two bytes, and an attribute with two values, of which the second is the longer one.
theorem exact_of_letters :
    let source := "<é x=\x7by\x7d x=\x7bzz\x7d>\x7bfor i in é\x7d\x7bi\x7d\x7bend\x7d</é>"
    ∃ t u, parse source = .ok t ∧ t.at? [.child 0] = some u ∧ u.site = ⟨18, 37⟩ ∧
      t.Exact source ∧ u.Exact source := by
  intro source
  let value : Tree Span := ⟨⟨13, 15⟩, .var "zz"⟩
  let u : Tree Span := ⟨⟨18, 37⟩, .loop "i" ⟨⟨27, 29⟩, .var "é"⟩ [⟨⟨31, 32⟩, .var "i"⟩]⟩
  let t : Tree Span := ⟨⟨0, 43⟩, .element "é" [("x", value)] [u]⟩
  have parsed : parse source = .ok t := by decide +kernel
  exact ⟨t, u, parsed, rfl, rfl, exact_of_parse parsed [] t rfl,
    exact_of_parse parsed [.child 0] u rfl⟩

end Tree
end MarkupTemplate
