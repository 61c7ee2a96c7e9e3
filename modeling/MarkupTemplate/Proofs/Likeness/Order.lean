import MarkupTemplate.Proofs.Likeness.Matching
import MarkupTemplate.Proofs.Place.Path

/-!
The order of attributes is all that likeness leaves open: trees that are alike and name their
attributes in the same order are equal (`eq_of_alike`), if the attributes are maps.
-/

namespace MarkupTemplate

section

variable {α β : Type} {R : α → α → Prop}

theorem eq_of_forall₂ {as bs : List α} (h : List.Forall₂ R as bs)
    (eq : ∀ (k : Nat) (a b : α), as[k]? = some a → bs[k]? = some b → R a b → a = b) : as = bs := by
  induction h with
  | nil => rfl
  | cons related _ ih =>
    rw [eq 0 _ _ rfl rfl related, ih fun k a b here here' => eq (k + 1) a b here here']

-- The names of the attributes, in their order.
def Node.keys : Node α → List String
  | element _ attributes _ => Attributes.names attributes
  | _                      => []

@[simp]
theorem Node.keys_map (f : α → β) (n : Node α) : (n.map f).keys = n.keys := by
  cases n <;> simp [map, keys]

end

namespace Tree

open Attributes

variable {ι κ μ : Type}

-- Wherever a path leads in both trees, the attributes there are named in the same order.
def SameOrder (t : Tree ι) (u : Tree κ) : Prop :=
  ∀ path v w, t.at? path = some v → u.at? path = some w → v.node.keys = w.node.keys

namespace SameOrder

variable {t : Tree ι} {u : Tree κ}

theorem refl (t : Tree ι) : t.SameOrder t := by
  intro path v w here here'
  cases here.symm.trans here'
  rfl

theorem symm (h : t.SameOrder u) : u.SameOrder t :=
  fun path v w here here' => (h path w v here' here).symm

theorem map_left (h : t.SameOrder u) (f : ι → μ) : (t.map f).SameOrder u := by
  intro path v w here here'
  rw [at?_map] at here
  obtain ⟨v, found, rfl⟩ := Option.map_eq_some_iff.mp here
  rw [map_eq, Node.keys_map]
  exact h path v w found here'

theorem shape (h : t.SameOrder u) : t.shape.SameOrder u.shape :=
  ((h.map_left _).symm.map_left _).symm

theorem below {v : Tree ι} {w : Tree κ} (h : t.SameOrder u) (turn : Turn)
    (part : t.node.part? turn = some v) (part' : u.node.part? turn = some w) : v.SameOrder w := by
  intro path v' w' here here'
  exact h (turn :: path) v' w' (at?_cons_eq_some_iff.mpr ⟨v, part, here⟩)
    (at?_cons_eq_some_iff.mpr ⟨w, part', here'⟩)

end SameOrder

theorem Keyed.map {t : Tree ι} (h : t.Keyed) (f : ι → κ) : (t.map f).Keyed := by
  induction h with
  | var => exact .var
  | element nodup _ _ ihA ihB =>
    simp only [Tree.map, mapAttributes_eq, mapBody_eq]
    refine .element ?_ (List.forall_mem_map.mpr ihA) (List.forall_mem_map.mpr ihB)
    simpa using nodup
  | loop _ _ ihC ihB =>
    simp only [Tree.map, mapBody_eq]
    exact .loop ihC (List.forall_mem_map.mpr ihB)

variable [DecidableEq ι] {t u : Tree ι}

-- There is no choice of a partner, and all of them stand where their names do.
theorem forall₂_of_matched {as bs : Attributes (Tree ι)} (nodup : as.names.Nodup)
    (order : as.names = bs.names) (h : Matched as bs) : List.Forall₂ (Partners Alike) as bs := by
  induction as generalizing bs with
  | nil =>
    cases matched_nil_iff.mp h
    exact .nil
  | cons a as ih =>
    cases bs with
    | nil       => cases order
    | cons b bs =>
      have ⟨c, cs, partner, rest, perm⟩ := matched_cons_iff.mp h
      have ⟨same, others⟩ := List.cons.inj order
      have ⟨absent, nodup'⟩ := List.nodup_cons.mp nodup
      have eq : b = c := by
        cases List.mem_cons.mp (perm.mem_iff.mpr List.mem_cons_self)
        case inl eq  => exact eq.symm
        case inr mem =>
          have named : a.1 ∈ names as := by
            rw [names, others, partner.1]
            exact List.mem_map_of_mem mem
          exact absurd named absent
      cases eq
      refine .cons partner (ih nodup' others ?_)
      rw [Matched, Multiset.coe_eq_coe.mpr (List.perm_cons b |>.mp perm)]
      exact rest

theorem eq_of_alike (h : t.Alike u) (keyed : t.Keyed) (order : t.SameOrder u) : t = u := by
  induction keyed generalizing u with
  | var => exact (eq_of_var_alike h).symm
  | element nodup _ _ ihA ihB =>
    obtain ⟨bs, us, rfl, hA, hB⟩ := eq_of_element_alike h
    have named := order [] _ _ rfl rfl
    have pairs := forall₂_of_matched nodup named (matched_of_alikeAttributes hA)
    have attributes := eq_of_forall₂ pairs fun k a b here here' partner => by
      have value := ihA a (List.mem_of_getElem? here) partner.2
        (order.below (.value k) (by simp [Node.part?, here]) (by simp [Node.part?, here']))
      exact Prod.ext partner.1 value
    have body := eq_of_forall₂ (alikeBody_iff.mp hB) fun k t u here here' like =>
      ihB t (List.mem_of_getElem? here) like (order.below (.child k) here here')
    rw [attributes, body]
  | loop _ _ ihC ihB =>
    obtain ⟨_, us, rfl, hC, hB⟩ := eq_of_loop_alike h
    have collection := ihC hC (order.below .collection rfl rfl)
    have body := eq_of_forall₂ (alikeBody_iff.mp hB) fun k t u here here' like =>
      ihB t (List.mem_of_getElem? here) like (order.below (.child k) here here')
    rw [collection, body]

end Tree
end MarkupTemplate
