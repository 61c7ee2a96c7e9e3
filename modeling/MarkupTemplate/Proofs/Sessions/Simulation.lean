import MarkupTemplate.Proofs.Sessions.Ledger

/-!
Sessions do what the ledger says. `Ledger.Matches.perform_of_tells` is a step: the answer is the one
that the ledger tells, and what is written is what the ledger records. So the ledger of a run
describes the session at its end, and all answers on the way (`Ledger.describes_after`).
-/

namespace MarkupTemplate

namespace Session

def after (s : Session) (cs : List Command) : Session :=
  cs.foldl (fun s c => (s.perform c).1) s

variable {s : Session} {scope : Scope} {slot : String}

theorem getElem?_answers (s : Session) (cs : List Command) (i : Nat) :
    (s.answers cs)[i]? = cs[i]?.map fun c => ((s.after (cs.take i)).perform c).2 := by
  induction cs generalizing s i with
  | nil => rfl
  | cons c cs ih =>
    cases i with
    | zero   => rfl
    | succ i => exact ih (s.perform c).1 i

theorem perform_extend (written : s.scopes[slot]? = some scope) (target name : String) (v : Value) :
    s.perform (.extend slot target name v) =
      (s.perform (.copy slot target)).1.perform (.insert target name v) := by
  have overwritten :
      (s.scopes.insert target scope).insert target (scope.bind name v) =
        s.scopes.insert target (scope.bind name v) := by
    ext1 other
    simp only [Std.ExtTreeMap.getElem?_insert]
    split <;> rfl
  simp [perform, withScope, written, Session.written, store, overwritten]

-- An entry takes the place of what is there under its name.
def overwrite {α β : Type} (g : α → β) (m : Std.ExtTreeMap String β) :
    Option (String × α) → Std.ExtTreeMap String β
  | some (x, a) => m.insert x (g a)
  | none        => m

-- What a command writes and loads. A history is kept as the scope that it makes.
def keep (s : Session) (entry : Option (String × History)) (loaded : Option (String × Template)) :
    Session :=
  ⟨overwrite Scope.ofList s.scopes entry, overwrite id s.templates loaded⟩

-- A session is written to where a command says so, and nowhere else. A command that only looks, as
-- rendering does, or that fails leaves no trace.
structure Spares (s : Session) : Prop where
  others    : ∀ {c : Command} {slot}, c.target ≠ some slot →
    (s.perform c).1.scopes[slot]? = s.scopes[slot]?
  templates : ∀ {c : Command}, c.loaded = none → (s.perform c).1.templates = s.templates
  looks     : ∀ {c : Command}, c.target = none → c.loaded = none → (s.perform c).1 = s
  failure   : ∀ {c : Command}, (s.perform c).2.IsFailure → (s.perform c).1 = s
  evaluate  : ∀ {template slot result},
    result = none ∨ (∀ v, (s.perform (.evaluate template slot result)).2 ≠ .value v) →
      (s.perform (.evaluate template slot result)).1 = s
  extend    : ∀ {slot target name v}, slot ∈ s.scopes →
    s.perform (.extend slot target name v) =
      (s.perform (.copy slot target)).1.perform (.insert target name v)

end Session

namespace Ledger

open Session

variable {l : Ledger} {s : Session} {c : Command} {a : Answer} {slot : String} {h : History}

theorem getElem?_overwrite {α β : Type} {g : α → β} {m : Std.ExtTreeMap String β}
    {f : String → Option α} (same : ∀ x, m[x]? = (f x).map g) (entry : Option (String × α))
    (x : String) : (overwrite g m entry)[x]? = (enter f entry x).map g := by
  cases entry
  case none => exact same x
  case some e =>
    rw [overwrite, enter, Std.ExtTreeMap.getElem?_insert, Function.update_apply]
    by_cases eq : e.1 = x
    case pos => simp [eq]
    case neg => simp [eq, Ne.symm eq, same x]

-- In each slot there is what its history makes.
structure Matches (l : Ledger) (s : Session) : Prop where
  scopes    : ∀ slot, s.scopes[slot]? = (l.histories slot).map Scope.ofList
  templates : ∀ template, s.templates[template]? = l.templates template

namespace Matches

theorem withScope_eq (m : l.Matches s) (slot : String) (use : Scope → Session × Answer) :
    s.withScope slot use =
      match l.histories slot with
      | some h => use (.ofList h)
      | none   => (s, .noSlot slot) := by
  cases there : l.histories slot
  all_goals simp only [withScope, m.scopes slot, there, Option.map_none, Option.map_some]

theorem withTemplate_eq (m : l.Matches s) (template : String)
    (use : Template → Session × Answer) :
    s.withTemplate template use =
      match l.templates template with
      | some t => use t
      | none   => (s, .noSlot template) := by
  cases loaded : l.templates template
  all_goals simp only [withTemplate, m.templates template, loaded]

theorem perform_of_writes (m : l.Matches s) (writes : l.writes c = some (slot, h)) :
    s.perform c = s.written slot (.ofList h) := by
  cases c
  case create | collect => cases writes; rfl
  case convert => cases writes; rw [perform, Scope.ofMap_eq_ofList]
  case copy | insert | extend =>
    have ⟨h, there, eq⟩ := Option.map_eq_some_iff.mp writes
    cases eq
    simp only [perform, m.withScope_eq, there, Scope.ofList_concat]
  all_goals cases writes

theorem perform_of_tells (m : l.Matches s) (tells : l.Tells c a) :
    s.perform c = (s.keep (l.entry c) c.loaded, a) := by
  have failed := tells.writes_nothing
  cases tells with
  | noSlot source unwritten =>
    rw [(failed trivial).1, (failed trivial).2]
    cases c <;> cases source <;> simp only [perform, m.withScope_eq, unwritten] <;> rfl
  | size writes =>
    rw [m.perform_of_writes writes, entry_of_writes writes, loaded_of_writes writes, written,
      Scope.size_ofList]
    rfl
  | binding there =>
    simp only [perform, m.withScope_eq, there, Scope.get?_ofList_eq_last?, Scope.contains_ofList]
    rfl
  | extent there =>
    simp only [perform, m.withScope_eq, there, Scope.size_ofList, Scope.isEmpty_ofList]
    rfl
  | comparison there there' same =>
    have same := same.trans (Scope.ofList_eq_iff.symm.trans decide_eq_true_iff.symm)
    simp only [perform, m.withScope_eq, there, there', Bool.eq_iff_iff.mpr same]
    rfl
  | noOther there unwritten =>
    simp only [perform, m.withScope_eq, there, unwritten]
    rfl
  | loaded parsed =>
    simp only [perform, parsed, Command.loaded]
    rfl
  | notLoaded parsed =>
    simp only [perform, parsed, Command.loaded]
    rfl
  | rendered there rendered =>
    simp only [perform, m.withScope_eq, there, rendered]
    rfl
  | notRendered there rendered =>
    simp only [perform, m.withScope_eq, there, rendered]
    rfl
  | noTemplate unloaded =>
    rw [(failed trivial).1]
    simp only [perform, m.withTemplate_eq, unloaded]
    rfl
  | noScope loaded unwritten =>
    rw [(failed trivial).1]
    simp only [perform, m.withTemplate_eq, m.withScope_eq, loaded, unwritten]
    rfl
  | notEvaluated loaded there evaluated =>
    rw [(failed trivial).1]
    simp only [perform, m.withTemplate_eq, m.withScope_eq, loaded, there, evaluated]
    rfl
  | noTarget value unwritten =>
    obtain ⟨_, _, loaded, there, evaluated⟩ := value?_eq_some_iff.mp value
    rw [(failed trivial).1]
    simp only [perform, m.withTemplate_eq, m.withScope_eq, loaded, there, evaluated, unwritten]
    rfl
  | @value _ _ result _ value targeted =>
    obtain ⟨_, _, loaded, there, evaluated⟩ := value?_eq_some_iff.mp value
    cases result
    case none =>
      simp only [perform, m.withTemplate_eq, m.withScope_eq, loaded, there, evaluated]
      rfl
    case some r =>
      obtain ⟨_, there'⟩ := Option.isSome_iff_exists.mp (targeted r rfl)
      simp only [perform, m.withTemplate_eq, m.withScope_eq, loaded, there, evaluated, there',
        entry_of_value? value, Option.map_some, keep, overwrite, Scope.ofList_concat]
      rfl

theorem perform_fst (m : l.Matches s) (c : Command) :
    (s.perform c).1 = s.keep (l.entry c) c.loaded := by
  have ⟨a, tells⟩ := l.exists_tells c
  rw [m.perform_of_tells tells]

theorem record (m : l.Matches s) (c : Command) : (l.record c).Matches (s.perform c).1 where
  scopes slot := by
    rw [m.perform_fst c]
    exact getElem?_overwrite m.scopes _ slot
  templates template := by
    have same (x : String) : s.templates[x]? = (l.templates x).map id := by
      rw [m.templates x, Option.map_id_apply]
    rw [m.perform_fst c]
    exact (getElem?_overwrite same _ template).trans Option.map_id_apply

theorem answer_eq_iff (m : l.Matches s) : (s.perform c).2 = a ↔ l.Tells c a where
  mp eq := by
    have ⟨b, tells⟩ := l.exists_tells c
    rw [m.perform_of_tells tells] at eq
    exact eq ▸ tells
  mpr tells := by rw [m.perform_of_tells tells]

theorem unchanged (m : l.Matches s) (unwritten : l.entry c = none) (unloaded : c.loaded = none) :
    (s.perform c).1 = s := by
  rw [m.perform_fst c, unwritten, unloaded]
  rfl

theorem apart (m : l.Matches s) (ne : c.target ≠ some slot) :
    (s.perform c).1.scopes[slot]? = s.scopes[slot]? := by
  rw [(m.record c).scopes, m.scopes]
  cases written : l.entry c
  case none   => rw [Ledger.record, written, enter]
  case some e =>
    have other : slot ≠ e.1 := fun eq => ne (eq ▸ target_of_entry written)
    simp only [Ledger.record, written, enter, Function.update_of_ne other]

theorem looks (m : l.Matches s) (aimless : c.target = none) (unloaded : c.loaded = none) :
    (s.perform c).1 = s := by
  refine m.unchanged ?_ unloaded
  cases e : l.entry c
  case none   => rfl
  case some e' => cases aimless.symm.trans (target_of_entry e)

theorem failure (m : l.Matches s) (failed : (s.perform c).2.IsFailure) : (s.perform c).1 = s := by
  have ⟨unwritten, unloaded⟩ := (m.answer_eq_iff.mp rfl).writes_nothing failed
  exact m.unchanged unwritten unloaded

end Matches

theorem matches_ofRun (cs : List Command) : (ofRun cs).Matches (Session.empty.after cs) := by
  suffices ∀ (l : Ledger) (s : Session), l.Matches s →
      (cs.foldl Ledger.record l).Matches (s.after cs) from
    this _ _ ⟨fun _ => Std.ExtTreeMap.getElem?_empty, fun _ => Std.ExtTreeMap.getElem?_empty⟩
  induction cs with
  | nil          => exact fun _ _ m => m
  | cons c cs ih => exact fun _ _ m => ih _ _ (m.record c)

-- What a session answers is what the ledger says.
structure Describes (l : Ledger) (s : Session) : Prop where
  answer : ∀ {c a}, (s.perform c).2 = a ↔ l.Tells c a
  value  : ∀ {template slot result v},
    (s.perform (.evaluate template slot result)).2 = .value v ↔
      l.value? template slot = some v ∧ ∀ r ∈ result, (l.histories r.1).isSome

theorem Matches.describes (m : l.Matches s) : l.Describes s where
  answer := m.answer_eq_iff
  value  := m.answer_eq_iff.trans tells_value_iff

theorem Matches.spares (m : l.Matches s) : s.Spares where
  others    := m.apart
  templates := by
    intro c unloaded
    rw [m.perform_fst c, unloaded]
    rfl
  looks     := m.looks
  failure   := m.failure
  evaluate  := by
    intro template slot result unwritten
    cases unwritten
    case inl isNone => exact m.looks (by rw [isNone]; rfl) rfl
    case inr other  =>
      obtain ⟨v, eq⟩ | failed := (m.answer_eq_iff.mp rfl).value_or_isFailure
      case inl => exact absurd eq (other v)
      case inr => exact m.failure failed
  extend    := by
    intro slot target name v written
    exact perform_extend (Std.ExtTreeMap.getElem?_eq_some_getElem written) target name v

theorem describes_after (cs : List Command) :
    (ofRun cs).Describes (Session.empty.after cs) ∧ (Session.empty.after cs).Spares ∧
      ∀ i a, (Session.empty.answers cs)[i]? = some a ↔
        ∃ c, cs[i]? = some c ∧ (ofRun (cs.take i)).Tells c a := by
  refine ⟨(matches_ofRun cs).describes, (matches_ofRun cs).spares, fun i a => ?_⟩
  simp only [getElem?_answers, Option.map_eq_some_iff, (matches_ofRun _).answer_eq_iff]

-- The value of `t` is written into `b`. That of `u` is not, for it has none.
theorem describes_after_evaluations :
    let run := [.collect "a" [("x", .text "1"), ("x", .text "2")], .copy "a" "b",
      .load "t" "\x7bx\x7d", .load "u" "\x7by\x7d", .evaluate "t" "a" (some ("b", "y")),
      .evaluate "u" "a" (some ("b", "x"))]
    (Session.empty.answers run)[4]? = some (.value (.text "2")) ∧
      (Session.empty.answers run)[5]? =
        some (.notEvaluated ⟨.unbound "y", ⟨1, 2⟩⟩ "\x7by\x7d") ∧
      ((Session.empty.after run).perform (.get "b" "y")).2 = .binding (some (.text "2")) true ∧
      ((Session.empty.after run).perform (.get "b" "x")).2 = .binding (some (.text "2")) true ∧
      ((Session.empty.after run).perform (.measure "a")).2 = .extent 1 false := by
  intro run
  have ⟨describes, _, answers⟩ := describes_after run
  have a : (ofRun run).histories "a" = some [("x", .text "1"), ("x", .text "2")] := by
    decide +kernel
  have b : (ofRun run).histories "b" =
      some [("x", .text "1"), ("x", .text "2"), ("y", .text "2")] := by
    decide +kernel
  refine ⟨(answers 4 _).mpr ⟨_, rfl, ?value⟩, (answers 5 _).mpr ⟨_, rfl, ?failure⟩, ?y, ?x, ?size⟩
  case value => exact .value (by decide +kernel) (by decide +kernel)
  case failure =>
    have loaded : (ofRun (run.take 5)).templates "u" = some ⟨"\x7by\x7d", ⟨⟨1, 2⟩, .var "y"⟩⟩ := by
      decide +kernel
    have there : (ofRun (run.take 5)).histories "a" = some [("x", .text "1"), ("x", .text "2")] := by
      decide +kernel
    exact .notEvaluated loaded there (by decide +kernel)
  case y    => exact describes.answer.mpr (.binding b)
  case x    => exact describes.answer.mpr (.binding b)
  case size => exact describes.answer.mpr (.extent a)

-- The copy keeps what was written before it was made, and the name `x` counts once.
example : let run := [.collect "a" [("x", .text "1"), ("x", .text "2")], .copy "a" "b",
      .insert "a" "x" (.text "3")]
    (ofRun run).histories "b" = some [("x", .text "1"), ("x", .text "2")] ∧
      (ofRun run).histories "a" = some [("x", .text "1"), ("x", .text "2"), ("x", .text "3")] := by
  decide

end Ledger
end MarkupTemplate
