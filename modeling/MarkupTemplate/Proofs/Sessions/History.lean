import Mathlib.Data.Finset.Card
import Mathlib.Data.List.Induction
import MarkupTemplate.Value.Scope

/-!
Histories: what was written into a scope, in the order in which it was written. A scope shows no more
of its history than which binding of each name is the last, so `ofList_eq_iff` says when two
histories cannot be told apart.
-/

namespace MarkupTemplate

-- The oldest binding comes first.
abbrev History := List (String × Value)

namespace History

def last? (h : History) (x : String) : Option Value :=
  h.reverse.lookup x

-- A name counts once, however often it was bound.
def names (h : History) : Finset String :=
  (h.map (·.1)).toFinset

theorem names_concat (h : History) (b : String × Value) :
    names (h ++ [b]) = insert b.1 h.names := by
  rw [names, List.map_append, List.toFinset_append, Finset.union_comm]
  rfl

theorem mem_names_iff {h : History} {x : String} : x ∈ h.names ↔ (h.last? x).isSome := by
  rw [last?, List.lookup_isSome_iff]
  simp [names, eq_comm (a := x)]

end History

namespace Scope

theorem get?_ofList_eq_last? (h : History) (x : String) : (ofList h).get? x = h.last? x :=
  get?_ofList h x

theorem contains_ofList (h : History) (x : String) :
    (ofList h).contains x = decide (x ∈ h.names) := by
  rw [contains_eq_isSome, get?_ofList_eq_last?, Bool.eq_iff_iff, decide_eq_true_iff,
    History.mem_names_iff]

theorem ofList_concat (h : History) (x : String) (v : Value) :
    ofList (h ++ [(x, v)]) = (ofList h).bind x v := by
  simp [ofList]

theorem size_ofList (h : History) : (ofList h).size = h.names.card := by
  induction h using List.reverseRecOn with
  | nil => exact size_empty
  | append_singleton h b ih =>
    rw [ofList_concat, size_bind, contains_ofList, ih, History.names_concat,
      Finset.card_insert_eq_ite]
    simp only [decide_eq_true_iff]

theorem isEmpty_ofList (h : History) : (ofList h).isEmpty = decide (h.names.card = 0) := by
  rw [Bool.eq_iff_iff, isEmpty_iff_size, size_ofList, decide_eq_true_iff]

theorem ofList_eq_iff {h h' : History} : ofList h = ofList h' ↔ ∀ x, h.last? x = h'.last? x := by
  constructor
  case mp  =>
    intro eq x
    rw [← get?_ofList_eq_last?, eq, get?_ofList_eq_last?]
  case mpr =>
    intro same
    ext1 x
    rw [get?_ofList_eq_last?, same, get?_ofList_eq_last?]

theorem ofMap_eq_ofList (m : Std.HashMap String Value) : ofMap m = ofList m.toList := by
  suffices ∀ (h : History) (s : Scope),
      ⟨s.bindings.insertMany h⟩ = h.foldl (fun s b => s.bind b.1 b.2) s by
    rw [ofMap, Std.ExtTreeMap.ofList_eq_insertMany_empty]
    exact this m.toList empty
  intro h
  induction h with
  | nil => intro s; simp
  | cons b h ih =>
    intro s
    rw [Std.ExtTreeMap.insertMany_cons]
    exact ih (s.bind b.1 b.2)

end Scope
end MarkupTemplate
