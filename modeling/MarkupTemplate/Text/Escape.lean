/-!
Escaping for the two places of a rendered page that take a text: between tags, where `&`, `<`
and `>` are written as entities, and between the quotes of an attribute, where only `"` is.
-/

namespace MarkupTemplate

namespace Escape

def textEntity : Char → Option String
  | '&' => some "&amp;"
  | '<' => some "&lt;"
  | '>' => some "&gt;"
  | _ => none

-- The characters of a text that have an entity.
def textSigns : List Char :=
  ['&', '<', '>']

-- A value between double quotes ends at the next one and at nothing else.
def attributeEntity : Char → Option String
  | '"' => some "&quot;"
  | _ => none

def attributeSigns : List Char :=
  ['"']

def written (entity : Char → Option String) (c : Char) : List Char :=
  match entity c with
  | some e => e.toList
  | none => [c]

theorem written_of_some {entity : Char → Option String} {c : Char} {e : String}
    (h : entity c = some e) : written entity c = e.toList := by
  rw [written, h]

theorem written_of_none {entity : Char → Option String} {c : Char} (h : entity c = none) :
    written entity c = [c] := by
  rw [written, h]

-- Replaces each character on its own, so that texts can be escaped piece by piece.
def replace (entity : Char → Option String) (s : String) : String :=
  .ofList (s.toList.flatMap (written entity))

-- Looks for the signs first, and passes on a text that has none of them as it is.
def replaceSigns (signs : List Char) (entity : Char → Option String) (s : String) : String :=
  if s.toList.any signs.contains then replace entity s else s

@[simp]
theorem toList_replace (entity : Char → Option String) (s : String) :
    (replace entity s).toList = s.toList.flatMap (written entity) := by
  simp [replace]

theorem replace_append (entity : Char → Option String) (s t : String) :
    replace entity (s ++ t) = replace entity s ++ replace entity t := by
  simp [replace]

theorem replace_eq_self {entity : Char → Option String} {s : String}
    (h : ∀ c ∈ s.toList, entity c = none) : replace entity s = s := by
  suffices ∀ cs : List Char, (∀ c ∈ cs, entity c = none) → cs.flatMap (written entity) = cs by
    simp [replace, this _ h]
  intro cs h
  induction cs with
  | nil => rfl
  | cons c cs ih => simp_all [written]

theorem replaceSigns_eq {signs : List Char} {entity : Char → Option String}
    (h : ∀ c, c ∉ signs → entity c = none) (s : String) :
    replaceSigns signs entity s = replace entity s := by
  rw [replaceSigns]
  split
  case isTrue        => rfl
  case isFalse clean => exact (replace_eq_self fun c hc => h c (by simp_all)).symm

theorem textEntity_eq_none_iff {c : Char} : textEntity c = none ↔ c ∉ textSigns := by
  rw [textEntity.eq_def]
  split <;> simp_all [textSigns]

theorem attributeEntity_eq_none_iff {c : Char} : attributeEntity c = none ↔ c ∉ attributeSigns := by
  rw [attributeEntity.eq_def]
  split <;> simp_all [attributeSigns]

theorem written_attributeEntity (c : Char) :
    c = '"' ∧ written attributeEntity c = ['&', 'q', 'u', 'o', 't', ';'] ∨
      c ≠ '"' ∧ written attributeEntity c = [c] := by
  by_cases quote : c = '"'
  case pos => exact .inl ⟨quote, by rw [quote]; rfl⟩
  case neg =>
    have none := attributeEntity_eq_none_iff.mpr (by simpa [attributeSigns] using quote)
    exact .inr ⟨quote, written_of_none none⟩

end Escape

def escapeText : String → String :=
  Escape.replaceSigns Escape.textSigns Escape.textEntity

def escapeAttribute : String → String :=
  Escape.replaceSigns Escape.attributeSigns Escape.attributeEntity

theorem escapeText_eq (s : String) : escapeText s = Escape.replace Escape.textEntity s :=
  Escape.replaceSigns_eq (fun _ => Escape.textEntity_eq_none_iff.mpr) s

theorem escapeAttribute_eq (s : String) :
    escapeAttribute s = Escape.replace Escape.attributeEntity s :=
  Escape.replaceSigns_eq (fun _ => Escape.attributeEntity_eq_none_iff.mpr) s

end MarkupTemplate
