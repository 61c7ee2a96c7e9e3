import MarkupTemplate.Proofs.Grammar.Word
import MarkupTemplate.Tree.Alike

/-!
The trees that a source can be written for. `Sound` is about the nodes of a tree and `WellFormed`
about the tree as a whole template. Both are kept by `alike`, and so is `Keyed`, which says that
attributes are a map.
-/

namespace MarkupTemplate

namespace Tree

variable {ι κ : Type}

def IsVariable (t : Tree ι) : Prop :=
  ∃ x, t.node = .var x

def IsReferenceTo (x : String) (t : Tree ι) : Prop :=
  t.node = .var x

-- The names are words, and what stands in a body is not taken for the start of a loop or, right
-- inside a loop, for its end.
inductive Sound : Tree ι → Prop where
  | var {site x} :
    IsName x → Sound ⟨site, .var x⟩
  | element {site tag attributes body} :
    IsName tag → (∀ a ∈ attributes, IsName a.1 ∧ a.2.IsVariable) → (∀ a ∈ attributes, Sound a.2) →
      (∀ t ∈ body, Sound t) → (∀ t ∈ body, ¬t.IsReferenceTo "for") →
        Sound ⟨site, .element tag attributes body⟩
  | loop {site binder collection body} :
    IsName binder → collection.IsVariable → Sound collection →
      (∀ t ∈ body, Sound t) → (∀ t ∈ body, ¬t.IsReferenceTo "for" ∧ ¬t.IsReferenceTo "end") →
        Sound ⟨site, .loop binder collection body⟩

structure WellFormed (t : Tree ι) : Prop where
  sound   : t.Sound
  not_for : ¬t.IsReferenceTo "for"

-- No element gives a name to two attributes.
inductive Keyed : Tree ι → Prop where
  | var {site x} :
    Keyed ⟨site, .var x⟩
  | element {site tag attributes body} :
    (Attributes.names attributes).Nodup → (∀ a ∈ attributes, Keyed a.2) → (∀ t ∈ body, Keyed t) →
      Keyed ⟨site, .element tag attributes body⟩
  | loop {site binder collection body} :
    Keyed collection → (∀ t ∈ body, Keyed t) → Keyed ⟨site, .loop binder collection body⟩

theorem isVariable_map_iff {f : ι → κ} {t : Tree ι} : (t.map f).IsVariable ↔ t.IsVariable := by
  obtain ⟨_, _ | _ | _⟩ := t <;> simp [IsVariable, Tree.map]

theorem isReferenceTo_map_iff {f : ι → κ} {t : Tree ι} {x : String} :
    (t.map f).IsReferenceTo x ↔ t.IsReferenceTo x := by
  obtain ⟨_, _ | _ | _⟩ := t <;> simp [IsReferenceTo, Tree.map]

theorem Sound.of_map {f : ι → κ} {t : Tree ι} (h : (t.map f).Sound) : t.Sound := by
  induction t with
  | var =>
    cases h with
    | var hx => exact .var hx
  | element site tag attributes body ihA ihB =>
    rw [Tree.map, mapAttributes_eq, mapBody_eq] at h
    cases h with
    | element htag values sounds bodies not_for =>
      simp only [Attributes.mapEntries, List.forall_mem_map, isVariable_map_iff] at values sounds
      simp only [List.forall_mem_map, isReferenceTo_map_iff] at bodies not_for
      exact .element htag values (fun a ha => ihA a ha (sounds a ha))
        (fun t ht => ihB t ht (bodies t ht)) not_for
  | loop site binder collection body ihC ihB =>
    rw [Tree.map, mapBody_eq] at h
    cases h with
    | loop hbinder value sound bodies other =>
      simp only [List.forall_mem_map, isReferenceTo_map_iff] at bodies other
      exact .loop hbinder (isVariable_map_iff.mp value) (ihC sound)
        (fun t ht => ihB t ht (bodies t ht)) other

theorem Sound.of_mem_children {t u : Tree ι} (h : t.Sound) (hu : u ∈ t.node.children) : u.Sound := by
  cases h with
  | var => cases hu
  | element _ _ sounds bodies =>
    cases List.mem_append.mp hu
    case inl hu =>
      have ⟨a, ha, eq⟩ := List.mem_map.mp hu
      exact eq ▸ sounds a ha
    case inr hu => exact bodies u hu
  | loop _ _ sound bodies =>
    cases hu
    case head    => exact sound
    case tail hu => exact bodies u hu

theorem perm_of_without_eq_some {α : Type} {like : α → Bool} {as bs : List α}
    (h : without like as = some bs) : ∃ a, like a ∧ (a :: bs).Perm as := by
  induction as generalizing bs with
  | nil => cases h
  | cons a as ih =>
    rw [without] at h
    split at h
    case isTrue hl =>
      cases h
      exact ⟨a, hl, .refl _⟩
    case isFalse =>
      obtain ⟨cs, hc, rfl⟩ := Option.map_eq_some_iff.mp h
      obtain ⟨b, hb, perm⟩ := ih hc
      exact ⟨b, hb, .trans (.swap ..) (perm.cons a)⟩

variable [DecidableEq ι] {t u : Tree ι}

theorem perm_of_alikeAttributes {as bs : Attributes (Tree ι)} (h : alikeAttributes as bs) :
    as.names.Perm bs.names ∧ ∀ b ∈ bs, ∃ a ∈ as, a.1 = b.1 ∧ a.2.alike b.2 := by
  induction as generalizing bs with
  | nil =>
    rw [alikeAttributes, List.isEmpty_iff] at h
    subst h
    refine ⟨.refl _, ?_⟩
    rintro _ ⟨⟩
  | cons a as ih =>
    rw [alikeAttributes] at h
    split at h
    case h_1 rest without =>
      obtain ⟨b, like, perm⟩ := perm_of_without_eq_some without
      obtain ⟨names, all⟩ := ih h
      obtain ⟨name, like⟩ : a.1 = b.1 ∧ a.2.alike b.2 := by simpa using like
      have names : (Attributes.names (a :: as)).Perm (Attributes.names (b :: rest)) := by
        simpa [Attributes.names, name] using names
      refine ⟨names.trans (perm.map _), fun c hc => ?_⟩
      obtain rfl | hc := List.mem_cons.mp (perm.mem_iff.mpr hc)
      · exact ⟨a, List.mem_cons_self, name, like⟩
      · obtain ⟨a', ha', like'⟩ := all c hc
        exact ⟨a', List.mem_cons_of_mem _ ha', like'⟩
    case h_2 => cases h

theorem exists_alike_of_alikeBody {ts us : List (Tree ι)} (h : alikeBody ts us) :
    ∀ u ∈ us, ∃ t ∈ ts, t.alike u := by
  induction ts generalizing us with
  | nil =>
    rw [alikeBody, List.isEmpty_iff] at h
    subst h
    rintro _ ⟨⟩
  | cons t ts ih =>
    cases us with
    | nil       => rintro _ ⟨⟩
    | cons u us =>
      obtain ⟨ht, hts⟩ := Bool.and_eq_true_iff.mp h
      rintro u' (_ | ⟨_, hu'⟩)
      · exact ⟨t, List.mem_cons_self, ht⟩
      · obtain ⟨t', ht', like⟩ := ih hts u' hu'
        exact ⟨t', List.mem_cons_of_mem _ ht', like⟩

theorem eq_of_var_alike {site : ι} {x : String} (h : alike ⟨site, .var x⟩ u) :
    u = ⟨site, .var x⟩ := by
  obtain ⟨_, _ | _ | _⟩ := u <;> simp_all [alike]

theorem eq_of_alike_var {site : ι} {x : String} (h : alike t ⟨site, .var x⟩) :
    t = ⟨site, .var x⟩ := by
  obtain ⟨_, _ | _ | _⟩ := t <;> simp_all [alike]

theorem eq_of_element_alike {site : ι} {tag : String} {attributes : Attributes (Tree ι)}
    {body : List (Tree ι)} (h : alike ⟨site, .element tag attributes body⟩ u) :
    ∃ attributes' body', u = ⟨site, .element tag attributes' body'⟩ ∧
      alikeAttributes attributes attributes' ∧ alikeBody body body' := by
  obtain ⟨_, _ | _ | _⟩ := u
  case element =>
    simp only [alike, Bool.and_eq_true, decide_eq_true_eq] at h
    obtain ⟨⟨⟨rfl, rfl⟩, attributes⟩, body⟩ := h
    exact ⟨_, _, rfl, attributes, body⟩
  all_goals cases h

theorem eq_of_loop_alike {site : ι} {binder : String} {collection : Tree ι} {body : List (Tree ι)}
    (h : alike ⟨site, .loop binder collection body⟩ u) :
    ∃ collection' body', u = ⟨site, .loop binder collection' body'⟩ ∧
      collection.alike collection' ∧ alikeBody body body' := by
  obtain ⟨_, _ | _ | _⟩ := u
  case loop =>
    simp only [alike, Bool.and_eq_true, decide_eq_true_eq] at h
    obtain ⟨⟨⟨rfl, rfl⟩, collection⟩, body⟩ := h
    exact ⟨_, _, rfl, collection, body⟩
  all_goals cases h

theorem IsVariable.of_alike (alike : t.alike u) (h : t.IsVariable) : u.IsVariable := by
  obtain ⟨site, _⟩ := t
  obtain ⟨x, rfl⟩ := h
  exact ⟨x, by rw [eq_of_var_alike alike]⟩

theorem IsReferenceTo.of_alike {x : String} (alike : t.alike u) (h : u.IsReferenceTo x) :
    t.IsReferenceTo x := by
  obtain ⟨site, _⟩ := u
  obtain rfl : _ = Node.var x := h
  rw [eq_of_alike_var alike]
  rfl

theorem Sound.of_alike (alike : t.alike u) (h : t.Sound) : u.Sound := by
  induction h generalizing u with
  | var hx => exact eq_of_var_alike alike ▸ .var hx
  | element htag values _ _ not_for ihA ihB =>
    obtain ⟨as, us, rfl, hA, hB⟩ := eq_of_element_alike alike
    have ⟨_, attributes⟩ := perm_of_alikeAttributes hA
    have body := exists_alike_of_alikeBody hB
    refine .element htag (fun b hb => ?_) (fun b hb => ?_) (fun u hu => ?_) (fun u hu ref => ?_)
    · have ⟨a, ha, name, like⟩ := attributes b hb
      exact ⟨name ▸ (values a ha).1, (values a ha).2.of_alike like⟩
    · have ⟨a, ha, _, like⟩ := attributes b hb
      exact ihA a ha like
    · have ⟨t, ht, like⟩ := body u hu
      exact ihB t ht like
    · have ⟨t, ht, like⟩ := body u hu
      exact not_for t ht (ref.of_alike like)
  | loop hbinder value _ _ other ihC ihB =>
    obtain ⟨v, us, rfl, hC, hB⟩ := eq_of_loop_alike alike
    have body := exists_alike_of_alikeBody hB
    refine .loop hbinder (value.of_alike hC) (ihC hC) (fun u hu => ?_) (fun u hu => ?_)
    · have ⟨t, ht, like⟩ := body u hu
      exact ihB t ht like
    · have ⟨t, ht, like⟩ := body u hu
      exact ⟨fun ref => (other t ht).1 (ref.of_alike like),
        fun ref => (other t ht).2 (ref.of_alike like)⟩

theorem Keyed.of_alike (alike : t.alike u) (h : t.Keyed) : u.Keyed := by
  induction h generalizing u with
  | var => exact eq_of_var_alike alike ▸ .var
  | element nodup _ _ ihA ihB =>
    obtain ⟨as, us, rfl, hA, hB⟩ := eq_of_element_alike alike
    have ⟨names, attributes⟩ := perm_of_alikeAttributes hA
    refine .element (names.nodup_iff.mp nodup) (fun b hb => ?_) (fun u hu => ?_)
    · have ⟨a, ha, _, like⟩ := attributes b hb
      exact ihA a ha like
    · have ⟨t, ht, like⟩ := exists_alike_of_alikeBody hB u hu
      exact ihB t ht like
  | loop _ _ ihC ihB =>
    obtain ⟨v, us, rfl, hC, hB⟩ := eq_of_loop_alike alike
    refine .loop (ihC hC) (fun u hu => ?_)
    have ⟨t, ht, like⟩ := exists_alike_of_alikeBody hB u hu
    exact ihB t ht like

theorem WellFormed.of_alike (alike : t.alike u) (h : t.WellFormed) : u.WellFormed where
  sound       := h.sound.of_alike alike
  not_for ref := h.not_for (ref.of_alike alike)

end Tree
end MarkupTemplate
