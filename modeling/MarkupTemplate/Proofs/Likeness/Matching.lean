import Mathlib.Data.Multiset.MapFold
import MarkupTemplate.Proofs.Printing.WellFormed

/-!
Likeness as a matching. Two elements are alike if their attributes can be paired off by name, each
value with one like it, in any order (`alikeAttributes_iff_matched`). For attributes that are maps
this means that they have the same content (`alike_element_iff`). Likeness is an equivalence
(`equivalence_alike`).
-/

namespace MarkupTemplate

section

variable {α β : Type} {R : α → β → Prop} {a : α} {b c : β} {s s' : Multiset α} {m m' : Multiset β}

-- Two partners of `a` can stand for each other, so either of them can be taken out.
theorem rel_of_cons_eq_cons (h : Multiset.Rel R s m) (eq : c ::ₘ m = b ::ₘ m')
    (instead : ∀ a' ∈ s, R a' b → R a' c) : Multiset.Rel R s m' := by
  cases Multiset.cons_eq_cons.mp eq
  case inl h' => exact h'.2 ▸ h
  case inr h' =>
    obtain ⟨_, n, rfl, rfl⟩ := h'
    obtain ⟨a', s', partner, others, rfl⟩ := Multiset.rel_cons_right.mp h
    exact .cons (instead a' (Multiset.mem_cons_self a' s') partner) others

-- From `s` over to `m`, back to `s'` and over to `m'`.
theorem rel_zigzag (h₁ : Multiset.Rel R s m) (h₂ : Multiset.Rel R s' m) (h₃ : Multiset.Rel R s' m')
    (zigzag : ∀ a ∈ s, ∀ b a' b', R a b → R a' b → R a' b' → R a b') : Multiset.Rel R s m' := by
  induction h₁ generalizing s' m' with
  | zero =>
    cases Multiset.rel_zero_right.mp h₂
    cases Multiset.rel_zero_left.mp h₃
    exact .zero
  | cons first _ ih =>
    obtain ⟨a', s', second, others₂, rfl⟩ := Multiset.rel_cons_right.mp h₂
    obtain ⟨b', m', third, others₃, rfl⟩ := Multiset.rel_cons_left.mp h₃
    refine .cons (zigzag _ (Multiset.mem_cons_self ..) _ _ _ first second third) ?_
    exact ih others₂ others₃ fun a ha => zigzag a (Multiset.mem_cons_of_mem ha)

theorem forall₂_zigzag {as as' : List α} {bs bs' : List β} (h₁ : List.Forall₂ R as bs)
    (h₂ : List.Forall₂ R as' bs) (h₃ : List.Forall₂ R as' bs')
    (zigzag : ∀ a ∈ as, ∀ b a' b', R a b → R a' b → R a' b' → R a b') : List.Forall₂ R as bs' := by
  induction h₁ generalizing as' bs' with
  | nil =>
    cases h₂
    cases h₃
    exact .nil
  | cons first _ ih =>
    cases h₂ with
    | cons second others₂ =>
      cases h₃ with
      | cons third others₃ =>
        have ⟨here, others⟩ := List.forall_mem_cons.mp zigzag
        exact .cons (here _ _ _ first second third) (ih others₂ others₃ others)

end

namespace Attributes

variable {α β : Type} {x : String}

theorem lookup_eq_some_iff {as : Attributes α} (nodup : as.names.Nodup) {v : α} :
    as.lookup x = some v ↔ (x, v) ∈ as := by
  induction as with
  | nil => simp
  | cons a as ih =>
    obtain ⟨y, w⟩ := a
    simp only [names, List.map_cons, List.nodup_cons] at nodup ih
    rw [List.lookup_cons, List.mem_cons, Prod.mk.injEq]
    by_cases eq : x = y
    case pos =>
      have absent : (y, v) ∉ as := fun mem => nodup.1 (List.mem_map_of_mem mem)
      simp [eq, absent, eq_comm]
    case neg => simp [eq, beq_eq_false_iff_ne.mpr eq, ih nodup.2]

theorem lookup_eq_of_perm {as bs : Attributes α} (nodup : as.names.Nodup) (perm : as.Perm bs)
    (x : String) : as.lookup x = bs.lookup x := by
  have nodup' : bs.names.Nodup := (perm.map _).nodup_iff.mp nodup
  ext v
  rw [lookup_eq_some_iff nodup, lookup_eq_some_iff nodup', perm.mem_iff]

theorem lookup_eq_none {as : Attributes α} (h : x ∉ as.names) : as.lookup x = none := by
  apply List.lookup_eq_none_iff.mpr
  intro a ha
  exact bne_iff_ne.mpr fun eq : x = a.1 => h (eq ▸ List.mem_map_of_mem ha)

-- Entries of one name, with values that `q` relates.
def Partners (q : α → β → Prop) (a : String × α) (b : String × β) : Prop :=
  a.1 = b.1 ∧ q a.2 b.2

section

variable {q : α → β → Prop} {as : Attributes α} {bs : Attributes β}

theorem exists_lookup_of_rel (nodup : as.names.Nodup) (nodup' : bs.names.Nodup)
    (h : Multiset.Rel (Partners q) ↑as ↑bs) {v : α} (found : as.lookup x = some v) :
    ∃ w, bs.lookup x = some w ∧ q v w := by
  have mem := (lookup_eq_some_iff nodup).mp found
  have ⟨⟨y, w⟩, mem', name, related⟩ := Multiset.exists_mem_of_rel_of_mem h mem
  cases name
  exact ⟨w, (lookup_eq_some_iff nodup').mpr mem', related⟩

-- There is one entry for each name, so pairing entries off is looking them up.
theorem rel_iff_lookup (nodup : as.names.Nodup) (nodup' : bs.names.Nodup) :
    Multiset.Rel (Partners q) ↑as ↑bs ↔ ∀ x, Option.Rel q (as.lookup x) (bs.lookup x) where
  mp h x := by
    cases left : as.lookup x
    case some v =>
      have ⟨w, right, related⟩ := exists_lookup_of_rel nodup nodup' h left
      exact right ▸ .some related
    case none =>
      cases right : bs.lookup x
      case none   => exact .none
      case some w =>
        have back : Multiset.Rel (Partners (flip q)) ↑bs ↑as :=
          (Multiset.rel_flip.mpr h).mono fun _ _ _ _ p => ⟨p.1.symm, p.2⟩
        have ⟨v, left', _⟩ := exists_lookup_of_rel nodup' nodup back right
        cases left.symm.trans left'
  mpr h := by
    induction as generalizing bs with
    | nil =>
      cases bs with
      | nil      => exact .zero
      | cons b _ =>
        have found := h b.1
        rw [(lookup_eq_some_iff nodup').mpr List.mem_cons_self] at found
        cases found
    | cons a as ih =>
      obtain ⟨y, v⟩ := a
      have found := h y
      rw [List.lookup_cons_self] at found
      generalize partner : bs.lookup y = option at found
      cases found with
      | @some _ w related =>
        have ⟨front, back, split⟩ := List.append_of_mem ((lookup_eq_some_iff nodup').mp partner)
        have perm : bs.Perm ((y, w) :: (front ++ back)) := split ▸ List.perm_middle
        have nodup'' := (perm.map Prod.fst).nodup_iff.mp nodup'
        rw [names, List.map_cons, List.nodup_cons] at nodup
        rw [List.map_cons, List.nodup_cons] at nodup''
        rw [Multiset.coe_eq_coe.mpr perm]
        refine .cons ⟨rfl, related⟩ (ih nodup.2 nodup''.2 fun x => ?_)
        by_cases eq : x = y
        case pos =>
          rw [eq, lookup_eq_none nodup.1, lookup_eq_none nodup''.1]
          exact .none
        case neg =>
          have here := h x
          rw [lookup_eq_of_perm nodup' perm, List.lookup_cons, List.lookup_cons,
            beq_eq_false_iff_ne.mpr eq] at here
          exact here

end
end Attributes

namespace Tree

open Attributes

variable {ι κ : Type}

theorem exists_without {α : Type} {like : α → Bool} {as : List α} {a : α} (mem : a ∈ as)
    (h : like a) : ∃ bs, without like as = some bs := by
  induction as with
  | nil => cases mem
  | cons b as ih =>
    rw [without]
    split
    case isTrue => exact ⟨as, rfl⟩
    case isFalse other =>
      cases mem
      case head => exact absurd h other
      case tail mem =>
        obtain ⟨bs, eq⟩ := ih mem
        exact ⟨b :: bs, by rw [eq]; rfl⟩

variable [DecidableEq ι] {t u : Tree ι}

-- As a relation, to be lifted to bodies and attributes.
def Alike (t u : Tree ι) : Prop :=
  t.alike u

-- Each attribute has a partner of its own on the other side, and none is left over there.
def Matched (as bs : List (String × Tree ι)) : Prop :=
  Multiset.Rel (Partners Alike) (as : Multiset (String × Tree ι)) (bs : Multiset (String × Tree ι))

-- All that is like something that `t` is like is like the same.
def Zigzag (t : Tree ι) : Prop :=
  ∀ u t' u' : Tree ι, t.Alike u → t'.Alike u → t'.Alike u' → t.Alike u'

theorem matched_nil_iff {bs : List (String × Tree ι)} : Matched [] bs ↔ bs = [] := by
  rw [Matched, Multiset.coe_nil, Multiset.rel_zero_left, Multiset.coe_eq_zero]

theorem matched_cons_iff {a : String × Tree ι} {as bs : List (String × Tree ι)} :
    Matched (a :: as) bs ↔ ∃ b cs, Partners Alike a b ∧ Matched as cs ∧ bs.Perm (b :: cs) where
  mp h := by
    rw [Matched, ← Multiset.cons_coe] at h
    obtain ⟨b, m, partner, rest, split⟩ := Multiset.rel_cons_left.mp h
    obtain ⟨cs, rfl⟩ := Quot.exists_rep m
    exact ⟨b, cs, partner, rest, Multiset.coe_eq_coe.mp split⟩
  mpr h := by
    have ⟨b, cs, partner, rest, perm⟩ := h
    rw [Matched, Multiset.coe_eq_coe.mpr perm]
    exact .cons partner rest

theorem alikeBody_iff {ts us : List (Tree ι)} : alikeBody ts us ↔ List.Forall₂ Alike ts us := by
  induction ts generalizing us with
  | nil => cases us <;> simp [alikeBody]
  | cons t ts ih =>
    cases us with
    | nil       => simp [alikeBody]
    | cons u us => simp [alikeBody, ih, Alike]

theorem matched_of_alikeAttributes {as bs : List (String × Tree ι)} (h : alikeAttributes as bs) :
    Matched as bs := by
  induction as generalizing bs with
  | nil =>
    rw [alikeAttributes, List.isEmpty_iff] at h
    exact matched_nil_iff.mpr h
  | cons a as ih =>
    rw [alikeAttributes] at h
    split at h
    case h_1 rest taken =>
      obtain ⟨b, like, perm⟩ := perm_of_without_eq_some taken
      have partner : Partners Alike a b := by simpa [Partners, Alike] using like
      exact matched_cons_iff.mpr ⟨b, rest, partner, ih h, perm.symm⟩
    case h_2 => cases h

-- The partner that is taken need not be the one that the matching has for the entry.
theorem alikeAttributes_of_matched {as bs : List (String × Tree ι)} (zigzag : ∀ a ∈ as, a.2.Zigzag)
    (h : Matched as bs) : alikeAttributes as bs := by
  induction as generalizing bs with
  | nil =>
    rw [matched_nil_iff] at h
    rw [h]
    rfl
  | cons a as ih =>
    obtain ⟨_, others⟩ := List.forall_mem_cons.mp zigzag
    obtain ⟨c, ds, partner, rest, split⟩ := matched_cons_iff.mp h
    let like (b : String × Tree ι) : Bool := a.1 = b.1 && a.2.alike b.2
    have like_iff {b : String × Tree ι} : like b ↔ Partners Alike a b := by
      simp [like, Partners, Alike]
    obtain ⟨cs, taken⟩ := exists_without (split.mem_iff.mpr List.mem_cons_self) (like_iff.mpr partner)
    obtain ⟨b, liked, perm⟩ := perm_of_without_eq_some taken
    have partner' := like_iff.mp liked
    have same : c ::ₘ (ds : Multiset (String × Tree ι)) = b ::ₘ ↑cs :=
      Multiset.coe_eq_coe.mpr (split.symm.trans perm.symm)
    have rest' : Matched as cs := by
      apply rel_of_cons_eq_cons rest same
      intro a' ha' p
      refine ⟨by rw [p.1, ← partner'.1, partner.1], ?_⟩
      exact others a' (Multiset.mem_coe.mp ha') _ _ _ p.2 partner'.2 partner.2
    rw [alikeAttributes, taken]
    exact ih others rest'

section

variable {site : ι} {tag binder : String} {collection collection' : Tree ι}
  {as bs : List (String × Tree ι)} {ts us : List (Tree ι)}

theorem alike_element (attributes : alikeAttributes as bs) (body : alikeBody ts us) :
    Alike ⟨site, .element tag as ts⟩ ⟨site, .element tag bs us⟩ := by
  simp [Alike, alike, attributes, body]

theorem alike_loop (collection : t.Alike u) (body : alikeBody ts us) :
    Alike ⟨site, .loop binder t ts⟩ ⟨site, .loop binder u us⟩ := by
  rw [Alike] at collection
  simp [Alike, alike, collection, body]

theorem eq_of_alike_element (h : alike t ⟨site, .element tag bs us⟩) :
    ∃ as ts, t = ⟨site, .element tag as ts⟩ ∧ alikeAttributes as bs ∧ alikeBody ts us := by
  obtain ⟨_, _ | _ | _⟩ := t
  case element =>
    obtain ⟨_, _, eq, attributes, body⟩ := eq_of_element_alike h
    cases eq
    exact ⟨_, _, rfl, attributes, body⟩
  all_goals cases h

theorem eq_of_alike_loop (h : alike t ⟨site, .loop binder u us⟩) :
    ∃ c ts, t = ⟨site, .loop binder c ts⟩ ∧ c.alike u ∧ alikeBody ts us := by
  obtain ⟨_, _ | _ | _⟩ := t
  case loop =>
    obtain ⟨_, _, eq, collection, body⟩ := eq_of_loop_alike h
    cases eq
    exact ⟨_, _, rfl, collection, body⟩
  all_goals cases h

end

theorem zigzag (t : Tree ι) : t.Zigzag := by
  induction t with
  | var site x =>
    intro u t' u' h₁ h₂ h₃
    cases eq_of_var_alike h₁
    cases eq_of_alike_var h₂
    exact h₃
  | element site tag attributes body ihA ihB =>
    intro u t' u' h₁ h₂ h₃
    obtain ⟨_, _, rfl, hA₁, hB₁⟩ := eq_of_element_alike h₁
    obtain ⟨_, _, rfl, hA₂, hB₂⟩ := eq_of_alike_element h₂
    obtain ⟨_, _, rfl, hA₃, hB₃⟩ := eq_of_element_alike h₃
    apply alike_element
    case attributes =>
      refine alikeAttributes_of_matched ihA (rel_zigzag (matched_of_alikeAttributes hA₁)
        (matched_of_alikeAttributes hA₂) (matched_of_alikeAttributes hA₃) ?_)
      intro a ha b a' b' p₁ p₂ p₃
      exact ⟨(p₁.1.trans p₂.1.symm).trans p₃.1, ihA a (Multiset.mem_coe.mp ha) _ _ _ p₁.2 p₂.2 p₃.2⟩
    case body =>
      rw [alikeBody_iff] at hB₁ hB₂ hB₃ ⊢
      exact forall₂_zigzag hB₁ hB₂ hB₃ ihB
  | loop site binder collection body ihC ihB =>
    intro u t' u' h₁ h₂ h₃
    obtain ⟨_, _, rfl, hC₁, hB₁⟩ := eq_of_loop_alike h₁
    obtain ⟨_, _, rfl, hC₂, hB₂⟩ := eq_of_alike_loop h₂
    obtain ⟨_, _, rfl, hC₃, hB₃⟩ := eq_of_loop_alike h₃
    apply alike_loop (ihC _ _ _ hC₁ hC₂ hC₃)
    rw [alikeBody_iff] at hB₁ hB₂ hB₃ ⊢
    exact forall₂_zigzag hB₁ hB₂ hB₃ ihB

theorem equivalence_alike : Equivalence (Alike (ι := ι)) where
  refl      := alike_refl
  symm h    := zigzag _ _ _ _ (alike_refl _) h (alike_refl _)
  trans h g := zigzag _ _ _ _ h (alike_refl _) g

theorem alikeAttributes_iff_matched {as bs : List (String × Tree ι)} :
    alikeAttributes as bs ↔ Matched as bs :=
  ⟨matched_of_alikeAttributes, alikeAttributes_of_matched fun a _ => zigzag a.2⟩

theorem alike_element_iff {site site' : ι} {tag tag' : String} {as bs : Attributes (Tree ι)}
    {ts us : List (Tree ι)} (nodup : as.names.Nodup) (nodup' : bs.names.Nodup) :
    Alike ⟨site, .element tag as ts⟩ ⟨site', .element tag' bs us⟩ ↔ site = site' ∧ tag = tag' ∧
      (∀ x, Option.Rel Alike (as.lookup x) (bs.lookup x)) ∧ List.Forall₂ Alike ts us := by
  rw [← rel_iff_lookup nodup nodup', ← Matched, ← alikeAttributes_iff_matched, ← alikeBody_iff]
  simp [Alike, alike, and_assoc]

section

variable {κ : Type} [DecidableEq κ] (f : ι → κ)

theorem alikeBody_map {ts us : List (Tree ι)}
    (ih : ∀ t ∈ ts, ∀ u, t.Alike u → (t.map f).Alike (u.map f)) (h : alikeBody ts us) :
    alikeBody (ts.map (Tree.map f)) (us.map (Tree.map f)) := by
  rw [alikeBody_iff] at h ⊢
  rw [List.forall₂_map_left_iff, List.forall₂_map_right_iff]
  exact ((List.forall₂_and_left ts us).mpr ⟨ih, h⟩).imp fun t u both => both.1 u both.2

theorem Alike.map (h : t.Alike u) : (t.map f).Alike (u.map f) := by
  induction t generalizing u with
  | var =>
    cases eq_of_var_alike h
    exact alike_refl _
  | element site tag attributes body ihA ihB =>
    obtain ⟨bs, us, rfl, hA, hB⟩ := eq_of_element_alike h
    simp only [Tree.map, mapAttributes_eq, mapBody_eq]
    apply alike_element
    case attributes =>
      apply alikeAttributes_iff_matched.mpr
      simp only [Matched, mapEntries, ← Multiset.map_coe]
      refine Multiset.rel_map.mpr ((matched_of_alikeAttributes hA).mono fun a ha b _ partner => ?_)
      exact ⟨partner.1, ihA a (Multiset.mem_coe.mp ha) partner.2⟩
    case body => exact alikeBody_map f (fun t ht u => ihB t ht) hB
  | loop site binder collection body ihC ihB =>
    obtain ⟨_, us, rfl, hC, hB⟩ := eq_of_loop_alike h
    simp only [Tree.map, mapBody_eq]
    exact alike_loop (ihC hC) (alikeBody_map f (fun t ht u => ihB t ht) hB)

end

end Tree
end MarkupTemplate
