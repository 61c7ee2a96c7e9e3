import Mathlib.Data.List.Basic
import Mathlib.Data.List.Induction
import MarkupTemplate.Tree.Attributes

/-!
Lists in which a name may be given more than once, and the attributes that they stand for.
`ofList_eq_settled` says that inserting the entries one after the other comes to keeping each name
where it is first given, with the entry that is given last.
-/

namespace MarkupTemplate.Attributes

variable {α β : Type}

-- Each name where it is first given, with the entry that is given last.
def settled (as : List (String × α)) : Attributes α :=
  (names as).eraseDups.filterMap fun x => (as.reverse.lookup x).map (x, ·)

theorem ofList_concat (as : List (String × α)) (a : String × α) :
    ofList (as ++ [a]) = (ofList as).insert a.1 a.2 := by
  simp [ofList]

theorem names_append (as bs : Attributes α) : names (as ++ bs) = as.names ++ bs.names := by
  simp [names]

theorem names_ofList (as : List (String × α)) : (ofList as).names = (names as).eraseDups := by
  induction as using List.reverseRecOn with
  | nil => rfl
  | append_singleton as a ih =>
    rw [ofList_concat, names_insert, ih, names_append, List.eraseDups_append]
    simp only [List.mem_eraseDups]
    split
    case isTrue h  => simp [names, List.removeAll] at h ⊢; grind
    case isFalse h => simp [names, List.removeAll] at h ⊢; grind

theorem lookup_ofList (as : List (String × α)) (x : String) :
    (ofList as).lookup x = as.reverse.lookup x := by
  induction as using List.reverseRecOn with
  | nil => rfl
  | append_singleton as a ih =>
    rw [ofList_concat, lookup_insert, ih, List.reverse_concat, List.lookup_cons]
    grind

theorem eq_filterMap_lookup {as : Attributes α} (nodup : as.names.Nodup) :
    as = as.names.filterMap fun x => (as.lookup x).map (x, ·) := by
  induction as with
  | nil => rfl
  | cons a as ih =>
    obtain ⟨y, v⟩ := a
    simp only [names, List.map_cons, List.nodup_cons] at nodup ih ⊢
    have tail : ∀ x ∈ as.map (·.1), (List.lookup x ((y, v) :: as)).map (x, ·) =
        (List.lookup x as).map (x, ·) := by
      intro x hx
      have ne : (x == y) = false := beq_eq_false_iff_ne.mpr (nodup.1 <| · ▸ hx)
      rw [List.lookup_cons, ne]
    rw [List.filterMap_cons, List.filterMap_congr tail, ← ih nodup.2]
    simp

theorem ofList_eq_settled (as : List (String × α)) : ofList as = settled as := by
  rw [eq_filterMap_lookup (nodup_names_ofList as), names_ofList]
  simp only [lookup_ofList, settled]

theorem mem_of_mem_settled {as : List (String × α)} {a : String × α} (h : a ∈ settled as) :
    a ∈ as := by
  obtain ⟨x, -, h⟩ := List.mem_filterMap.mp h
  obtain ⟨v, lookup, rfl⟩ := Option.map_eq_some_iff.mp h
  obtain ⟨_, _, eq, -⟩ := List.lookup_eq_some_iff.mp lookup
  exact List.mem_reverse.mp (by simp [eq])

theorem nodup_names_settled (as : List (String × α)) : (settled as).names.Nodup :=
  ofList_eq_settled as ▸ nodup_names_ofList as

theorem insert_of_not_mem {as : Attributes α} {x : String} (h : x ∉ as.names) (a : α) :
    as.insert x a = as ++ [(x, a)] := by
  induction as with
  | nil => rfl
  | cons b bs ih =>
    simp only [names, List.map_cons, List.mem_cons, not_or] at h ih
    rw [insert, if_neg (Ne.symm h.1), ih h.2, List.cons_append]

theorem settled_eq_self {as : Attributes α} (h : as.names.Nodup) : settled as = as := by
  rw [← ofList_eq_settled]
  induction as using List.reverseRecOn with
  | nil => rfl
  | append_singleton as a ih =>
    have ⟨nodup, fresh⟩ : (names as).Nodup ∧ a.1 ∉ names as := by
      rw [names_append, List.nodup_append] at h
      exact ⟨h.1, fun mem => h.2.2 _ mem _ List.mem_cons_self rfl⟩
    rw [ofList_concat, ih nodup, insert_of_not_mem fresh]

theorem mapEntries_insert (f : α → β) (x : String) (a : α) (as : Attributes α) :
    (as.insert x a).mapEntries f = (as.mapEntries f).insert x (f a) := by
  induction as with
  | nil => rfl
  | cons b bs ih =>
    simp only [insert, mapEntries, List.map_cons] at ih ⊢
    split
    case isTrue  => rfl
    case isFalse => rw [List.map_cons, ih]

theorem mapEntries_ofList (f : α → β) (as : List (String × α)) :
    (ofList as).mapEntries f = ofList (mapEntries f as) := by
  induction as using List.reverseRecOn with
  | nil => rfl
  | append_singleton as a ih =>
    have eq : mapEntries f (as ++ [a]) = mapEntries f as ++ [(a.1, f a.2)] := by simp [mapEntries]
    rw [ofList_concat, mapEntries_insert, ih, eq, ofList_concat]

end MarkupTemplate.Attributes
