import Std.Data.ExtTreeMap
import Std.Data.HashMap
import MarkupTemplate.Value.Basic

/-!
Scopes: finite maps from names to values. A scope is determined by what it answers to `get?`
(`Scope.ext`), and `get?_bind`, `get?_ofList` and `get?_ofMap` say what each way of building one
does to the answers: of several bindings of a name the last one holds.
-/

namespace MarkupTemplate

-- The map is extensional: how a scope was built cannot be seen, so equality of scopes is `=`.
structure Scope where
  bindings : Std.ExtTreeMap String Value
deriving DecidableEq

namespace Scope

def empty : Scope where
  bindings := ∅

instance : EmptyCollection Scope :=
  ⟨empty⟩

instance : Inhabited Scope :=
  ⟨empty⟩

def get? (s : Scope) (name : String) : Option Value :=
  s.bindings[name]?

def contains (s : Scope) (name : String) : Bool :=
  s.bindings.contains name

def size (s : Scope) : Nat :=
  s.bindings.size

def isEmpty (s : Scope) : Bool :=
  s.bindings.isEmpty

-- Leaves `s` as it is. An earlier binding of the name is shadowed in the result.
def bind (s : Scope) (name : String) (v : Value) : Scope where
  bindings := s.bindings.insert name v

def ofList (bs : List (String × Value)) : Scope :=
  bs.foldl (fun s b => s.bind b.1 b.2) empty

def ofMap (m : Std.HashMap String Value) : Scope where
  bindings := .ofList m.toList

@[ext]
theorem ext {s t : Scope} (h : ∀ name, s.get? name = t.get? name) : s = t := by
  cases s
  cases t
  congr
  exact Std.ExtTreeMap.ext_getElem? h

@[simp]
theorem get?_empty (name : String) : empty.get? name = none := by
  simp [empty, get?]

theorem get?_bind (s : Scope) (x y : String) (v : Value) :
    (s.bind x v).get? y = if x = y then some v else s.get? y := by
  simp [bind, get?, Std.ExtTreeMap.getElem?_insert]

@[simp]
theorem get?_bind_self (s : Scope) (x : String) (v : Value) : (s.bind x v).get? x = some v := by
  simp [get?_bind]

@[simp]
theorem contains_eq_isSome (s : Scope) (name : String) :
    s.contains name = (s.get? name).isSome := by
  simp [contains, get?]

theorem isEmpty_iff_size {s : Scope} : s.isEmpty ↔ s.size = 0 := by
  simp [isEmpty, size, Std.ExtTreeMap.isEmpty_eq_size_beq_zero]

@[simp]
theorem size_empty : empty.size = 0 := by
  simp [empty, size]

theorem size_bind (s : Scope) (x : String) (v : Value) :
    (s.bind x v).size = if s.contains x then s.size else s.size + 1 := by
  simp [bind, size, contains, Std.ExtTreeMap.size_insert]

theorem bind_bind_self (s : Scope) (x : String) (v w : Value) :
    (s.bind x v).bind x w = s.bind x w := by
  ext1 y
  simp only [get?_bind]
  split <;> rfl

theorem bind_comm {x y : String} (ne : x ≠ y) (s : Scope) (v w : Value) :
    (s.bind x v).bind y w = (s.bind y w).bind x v := by
  ext1 z
  simp only [get?_bind]
  grind

theorem get?_ofList (bs : List (String × Value)) (x : String) :
    (ofList bs).get? x = bs.reverse.lookup x := by
  suffices ∀ s : Scope, (bs.foldl (fun s b => s.bind b.1 b.2) s).get? x =
      (bs.reverse.lookup x).or (s.get? x) by simpa [ofList] using this empty
  induction bs with
  | nil => simp
  | cons b bs ih =>
    intro s
    simp only [List.foldl_cons, ih, get?_bind, List.reverse_cons, List.lookup_append]
    obtain ⟨y, v⟩ := b
    by_cases h : y = x
    case pos => simp [h]
    case neg => simp [List.lookup_cons, h, beq_eq_false_iff_ne.mpr (Ne.symm h)]

theorem get?_ofMap (m : Std.HashMap String Value) (x : String) : (ofMap m).get? x = m[x]? := by
  cases h : m[x]? with
  | some v =>
    refine Std.ExtTreeMap.getElem?_ofList_of_mem Std.ReflCmp.compare_self ?_
      (Std.HashMap.mem_toList_iff_getElem?_eq_some.mpr h)
    simpa using m.distinct_keys_toList
  | none =>
    refine Std.ExtTreeMap.getElem?_ofList_of_contains_eq_false ?_
    simpa [Std.HashMap.map_fst_toList_eq_keys] using h

end Scope
end MarkupTemplate
