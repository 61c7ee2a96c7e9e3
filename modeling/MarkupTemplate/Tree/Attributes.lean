/-!
The attributes of an element: named entries in the order in which the names were first given.
`names_insert` says that giving a name again keeps its place, `lookup_insert` that it replaces
the entry, and `nodup_names_ofList` that a list so built has each name once.
-/

namespace MarkupTemplate

abbrev Attributes (α : Type) :=
  List (String × α)

namespace Attributes

variable {α β : Type}

def names (as : Attributes α) : List String :=
  as.map (·.1)

-- A name that is there already keeps its place and gets the new entry.
def insert (name : String) (a : α) : Attributes α → Attributes α
  | [] => [(name, a)]
  | b :: bs => if b.1 = name then (name, a) :: bs else b :: insert name a bs

def ofList (as : List (String × α)) : Attributes α :=
  as.foldl (fun bs a => bs.insert a.1 a.2) []

def mapEntries (f : α → β) (as : Attributes α) : Attributes β :=
  as.map fun a => (a.1, f a.2)

@[simp]
theorem names_mapEntries (f : α → β) (as : Attributes α) :
    (as.mapEntries f).names = as.names := by
  simp [names, mapEntries]

theorem names_insert (name : String) (a : α) (as : Attributes α) :
    (as.insert name a).names = if name ∈ as.names then as.names else as.names ++ [name] := by
  induction as with
  | nil => simp [insert, names]
  | cons b bs ih =>
    simp only [names, insert] at ih ⊢
    split
    case isTrue h => simp [h]
    case isFalse h => simp only [List.map_cons, ih]; grind

theorem lookup_insert (name other : String) (a : α) (as : Attributes α) :
    (as.insert name a).lookup other = if other = name then some a else as.lookup other := by
  induction as with
  | nil => simp only [insert, List.lookup_cons, List.lookup_nil]; grind
  | cons b bs ih =>
    obtain ⟨key, v⟩ := b
    simp only [insert]
    split <;> simp only [List.lookup_cons] <;> grind

theorem nodup_names_insert {as : Attributes α} (h : as.names.Nodup) (name : String) (a : α) :
    (as.insert name a).names.Nodup := by
  rw [names_insert]
  split
  case isTrue => exact h
  case isFalse => simp [List.nodup_append, h]; grind

theorem nodup_names_ofList (as : List (String × α)) : (ofList as).names.Nodup := by
  suffices ∀ bs : Attributes α, bs.names.Nodup →
      (as.foldl (fun bs a => bs.insert a.1 a.2) bs).names.Nodup from this [] .nil
  induction as with
  | nil => exact fun _ h => h
  | cons a as ih => exact fun bs h => ih _ (nodup_names_insert h a.1 a.2)

end Attributes
end MarkupTemplate
