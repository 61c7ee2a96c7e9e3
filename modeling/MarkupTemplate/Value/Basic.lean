import MarkupTemplate.Text.Escape

/-!
The values that names stand for. A text is escaped when it is placed between tags, markup is
placed as it is, and a list can only be looped over.
-/

namespace MarkupTemplate

inductive Value where
  | text (content : String)
  | markup (content : String)
  | list (items : List Value)
deriving Inhabited

namespace Value

mutual

def decEq : (v w : Value) → Decidable (v = w)
  | text s, text t => decidable_of_iff (s = t) (by simp)
  | markup s, markup t => decidable_of_iff (s = t) (by simp)
  | list vs, list ws =>
    have := decEqItems vs ws
    decidable_of_iff (vs = ws) (by simp)
  | text _, markup _ | text _, list _ | markup _, text _ | markup _, list _ | list _, text _
  | list _, markup _ => isFalse nofun

def decEqItems : (vs ws : List Value) → Decidable (vs = ws)
  | [], [] => isTrue rfl
  | v :: vs, w :: ws =>
    have := decEq v w
    have := decEqItems vs ws
    decidable_of_iff (v = w ∧ vs = ws) (by simp)
  | [], _ :: _ | _ :: _, [] => isFalse nofun

end

instance : DecidableEq Value :=
  decEq

-- The text that a value is made of, escaped or not.
def content? : Value → Option String
  | text s | markup s => some s
  | list _ => none

-- A list has no form between tags, and is handed back.
def toHtml : Value → Except Value String
  | text s => .ok (escapeText s)
  | markup s => .ok s
  | list vs => .error (list vs)

def html? (v : Value) : Option String :=
  v.toHtml.toOption

theorem toHtml_eq_error_iff {v w : Value} : v.toHtml = .error w ↔ v = w ∧ ∃ vs, v = list vs := by
  cases v <;> simp [toHtml]

theorem html?_eq_none_iff {v : Value} : v.html? = none ↔ ∃ vs, v = list vs := by
  cases v <;> simp [html?, toHtml, Except.toOption]

end Value
end MarkupTemplate
