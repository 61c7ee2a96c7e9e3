import Mathlib.Logic.Function.Basic
import MarkupTemplate.Proofs.Sessions.History
import MarkupTemplate.Session

/-!
Ledgers: the history of each slot of a session, kept by someone who sees the commands and nothing
else. `Ledger.Tells` is the answer to a command as it has to be by the ledger, and every command has
one (`Ledger.exists_tells`).
-/

namespace MarkupTemplate

namespace Session

namespace Command

-- The slot that a command may write.
def target : Command → Option String
  | .create slot => slot
  | .collect slot _ => slot
  | .convert slot _ => slot
  | .copy _ target => target
  | .insert slot _ _ => slot
  | .extend _ target _ _ => target
  | .evaluate _ _ result => result.map (·.1)
  | .get .. | .measure .. | .compare .. | .load .. | .render .. => none

-- The slot that a command looks at before all else.
def source : Command → Option String
  | .copy slot _ => slot
  | .insert slot _ _ => slot
  | .extend slot _ _ _ => slot
  | .get slot _ => slot
  | .measure slot => slot
  | .compare slot _ => slot
  | .render slot _ => slot
  | .create .. | .collect .. | .convert .. | .load .. | .evaluate .. => none

-- The template that a command keeps.
def loaded : Command → Option (String × Template)
  | .load template source => (Tree.parse source).toOption.map fun t => (template, ⟨source, t⟩)
  | _ => none

end Command

def Answer.IsFailure : Answer → Prop
  | .notLoaded .. | .notEvaluated .. | .notRendered .. | .noSlot _ => True
  | _ => False

end Session

open Session

-- The history of each slot that was written, and each template as it was loaded last.
structure Ledger where
  histories : String → Option History
  templates : String → Option Template

namespace Ledger

def empty : Ledger :=
  ⟨fun _ => none, fun _ => none⟩

-- The value of a template in the scope that the history of a slot makes.
def value? (l : Ledger) (template slot : String) : Option Value := do
  let t ← l.templates template
  let h ← l.histories slot
  (t.tree.evaluate (.ofList h)).toOption

-- The slot that a command writes, with its history from then on. A copy takes over the history up
-- to this moment.
def writes (l : Ledger) : Command → Option (String × History)
  | .create slot => some (slot, [])
  | .collect slot bindings => some (slot, bindings)
  | .convert slot bindings => some (slot, bindings.toList)
  | .copy slot target => (l.histories slot).map fun h => (target, h)
  | .insert slot name v => (l.histories slot).map fun h => (slot, h ++ [(name, v)])
  | .extend slot target name v => (l.histories slot).map fun h => (target, h ++ [(name, v)])
  | _ => none

-- The value of a template is written like any other, if there is one.
def entry (l : Ledger) : Command → Option (String × History)
  | .evaluate template slot (some (target, name)) => do
    l.writes (.insert target name (← l.value? template slot))
  | c => l.writes c

def enter {α : Type} (f : String → Option α) : Option (String × α) → String → Option α
  | some (x, a) => Function.update f x a
  | none        => f

def record (l : Ledger) (c : Command) : Ledger :=
  ⟨enter l.histories (l.entry c), enter l.templates c.loaded⟩

-- The ledger at the end of a run that starts with no slots.
def ofRun (cs : List Command) : Ledger :=
  cs.foldl record empty

-- What the answer to a command has to be after all that was written and loaded.
inductive Tells (l : Ledger) : Command → Answer → Prop where
  | noSlot {c : Command} {slot} :
    c.source = some slot → l.histories slot = none → l.Tells c (.noSlot slot)
  | size {c : Command} {slot h} :
    l.writes c = some (slot, h) → l.Tells c (.size h.names.card)
  | binding {slot h name} :
    l.histories slot = some h →
      l.Tells (.get slot name) (.binding (h.last? name) (name ∈ h.names))
  | extent {slot h} :
    l.histories slot = some h →
      l.Tells (.measure slot) (.extent h.names.card (h.names.card = 0))
  | comparison {slot h other h' equal} :
    l.histories slot = some h → l.histories other = some h' →
      (equal = true ↔ ∀ name, h.last? name = h'.last? name) →
        l.Tells (.compare slot other) (.comparison equal)
  | noOther {slot h other} :
    l.histories slot = some h → l.histories other = none →
      l.Tells (.compare slot other) (.noSlot other)
  | loaded {template source t} :
    Tree.parse source = .ok t → l.Tells (.load template source) (.loaded t.site)
  | notLoaded {template source e} :
    Tree.parse source = .error e → l.Tells (.load template source) (.notLoaded e source)
  | rendered {slot h source v} :
    l.histories slot = some h → render source (.ofList h) = .ok v →
      l.Tells (.render slot source) (.value v)
  | notRendered {slot h source e} :
    l.histories slot = some h → render source (.ofList h) = .error e →
      l.Tells (.render slot source) (.notRendered e source)
  | noTemplate {template slot result} :
    l.templates template = none → l.Tells (.evaluate template slot result) (.noSlot template)
  | noScope {template t slot result} :
    l.templates template = some t → l.histories slot = none →
      l.Tells (.evaluate template slot result) (.noSlot slot)
  | notEvaluated {template t slot h result e} :
    l.templates template = some t → l.histories slot = some h →
      t.tree.evaluate (.ofList h) = .error e →
        l.Tells (.evaluate template slot result) (.notEvaluated e t.source)
  | noTarget {template slot target name v} :
    l.value? template slot = some v → l.histories target = none →
      l.Tells (.evaluate template slot (some (target, name))) (.noSlot target)
  | value {template slot result v} :
    l.value? template slot = some v → (∀ r ∈ result, (l.histories r.1).isSome) →
      l.Tells (.evaluate template slot result) (.value v)

variable {l : Ledger} {s : Session} {c : Command} {a : Answer} {slot template : String}
  {result : Option (String × String)} {h : History} {v : Value}

theorem value?_eq_some_iff : l.value? template slot = some v ↔
    ∃ t h, l.templates template = some t ∧ l.histories slot = some h ∧
      t.tree.evaluate (.ofList h) = .ok v := by
  have toOption (x : Except (EvaluationError Span) Value) : x.toOption = some v ↔ x = .ok v := by
    cases x <;> simp [Except.toOption]
  simp [value?, Option.bind_eq_some_iff, toOption]

theorem entry_of_writes (written : l.writes c = some (slot, h)) : l.entry c = some (slot, h) := by
  cases c
  case evaluate => cases written
  all_goals exact written

theorem loaded_of_writes (written : l.writes c = some (slot, h)) : c.loaded = none := by
  cases c
  case load => cases written
  all_goals rfl

theorem entry_of_value?_eq_none (none : l.value? template slot = none) :
    l.entry (.evaluate template slot result) = .none := by
  cases result
  case none   => rfl
  case some r => simp only [entry, none, Option.bind_eq_bind, Option.bind_none]

theorem entry_of_value? (value : l.value? template slot = some v) (target name : String) :
    l.entry (.evaluate template slot (some (target, name))) =
      (l.histories target).map fun h => (target, h ++ [(name, v)]) := by
  simp only [entry, value, Option.bind_eq_bind, Option.bind_some, writes]

theorem target_of_entry (written : l.entry c = some (slot, h)) : c.target = some slot := by
  cases c
  case create | collect | convert => cases written; rfl
  case copy | insert | extend =>
    have ⟨_, _, eq⟩ := Option.map_eq_some_iff.mp written
    cases eq
    rfl
  case evaluate template slot result =>
    cases result
    case none => cases written
    case some r =>
      cases value : l.value? template slot
      case none => cases (entry_of_value?_eq_none value).symm.trans written
      case some v =>
        rw [entry_of_value? value] at written
        have ⟨_, _, eq⟩ := Option.map_eq_some_iff.mp written
        cases eq
        rfl
  all_goals cases written

theorem tells_value_iff : l.Tells (.evaluate template slot result) (.value v) ↔
    l.value? template slot = some v ∧ ∀ r ∈ result, (l.histories r.1).isSome where
  mp tells := by cases tells with | value value targeted => exact ⟨value, targeted⟩
  mpr h := .value h.1 h.2

namespace Tells

theorem value_or_isFailure (tells : l.Tells (.evaluate template slot result) a) :
    (∃ v, a = .value v) ∨ a.IsFailure := by
  cases tells with
  | value => exact .inl ⟨_, rfl⟩
  | size writes => cases writes
  | _ => exact .inr trivial

theorem writes_nothing (tells : l.Tells c a) (failed : a.IsFailure) :
    l.entry c = none ∧ c.loaded = none := by
  cases tells with
  | noSlot source unwritten =>
    cases c <;> cases source <;> simp [entry, writes, unwritten, Command.loaded]
  | noOther | notRendered => exact ⟨rfl, rfl⟩
  | notLoaded parsed => exact ⟨rfl, by rw [Command.loaded, parsed]; rfl⟩
  | noTemplate unloaded =>
    exact ⟨entry_of_value?_eq_none (by simp only [value?, unloaded]; rfl), rfl⟩
  | noScope loaded unwritten =>
    exact ⟨entry_of_value?_eq_none (by simp only [value?, loaded, unwritten]; rfl), rfl⟩
  | notEvaluated loaded there evaluated =>
    refine ⟨entry_of_value?_eq_none ?_, rfl⟩
    simp only [value?, loaded, there]
    exact congrArg Except.toOption evaluated
  | noTarget value unwritten => exact ⟨by rw [entry_of_value? value, unwritten]; rfl, rfl⟩
  | _ => exact failed.elim

end Tells

-- No command is left without an answer, so that there is no other than this one.
theorem exists_tells (l : Ledger) (c : Command) : ∃ a, l.Tells c a := by
  have looked {c : Command} {slot : String} (source : c.source = some slot)
      (found : ∀ h, l.histories slot = some h → ∃ a, l.Tells c a) : ∃ a, l.Tells c a := by
    cases there : l.histories slot
    case none   => exact ⟨_, .noSlot source there⟩
    case some h => exact found h there
  cases c
  case create | collect | convert => exact ⟨_, .size rfl⟩
  case copy | insert | extend =>
    exact looked rfl fun h there => ⟨_, .size (by rw [writes, there]; rfl)⟩
  case get     => exact looked rfl fun h there => ⟨_, .binding there⟩
  case measure => exact looked rfl fun h there => ⟨_, .extent there⟩
  case compare slot other =>
    refine looked rfl fun h there => ?_
    cases there' : l.histories other
    case none    => exact ⟨_, .noOther there there'⟩
    case some h' =>
      by_cases same : ∀ name, h.last? name = h'.last? name
      case pos => exact ⟨.comparison true, .comparison there there' (by simpa using same)⟩
      case neg => exact ⟨.comparison false, .comparison there there' (by simpa using same)⟩
  case load template source =>
    cases parsed : Tree.parse source
    case error => exact ⟨_, .notLoaded parsed⟩
    case ok    => exact ⟨_, .loaded parsed⟩
  case render slot source =>
    refine looked rfl fun h there => ?_
    cases rendered : render source (.ofList h)
    case error => exact ⟨_, .notRendered there rendered⟩
    case ok    => exact ⟨_, .rendered there rendered⟩
  case evaluate template slot result =>
    cases loaded : l.templates template
    case none => exact ⟨_, .noTemplate loaded⟩
    case some t =>
      cases there : l.histories slot
      case none => exact ⟨_, .noScope loaded there⟩
      case some h =>
        cases evaluated : t.tree.evaluate (.ofList h)
        case error e => exact ⟨_, .notEvaluated loaded there evaluated⟩
        case ok v =>
          have value := value?_eq_some_iff.mpr ⟨t, h, loaded, there, evaluated⟩
          cases result
          case none   => exact ⟨_, .value value nofun⟩
          case some r =>
            cases there' : l.histories r.1
            case none    => exact ⟨_, .noTarget value there'⟩
            case some h' => exact ⟨_, .value value (by simp [there'])⟩

end Ledger
end MarkupTemplate
