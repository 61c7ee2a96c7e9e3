import MarkupTemplate.Proofs.Grammar.Acceptance
import MarkupTemplate.Proofs.Lockstep.Run
import MarkupTemplate.Proofs.Place.Shift

/-!
Reading again where a reading stopped. What stands before the cursor does not count, so a reading is
one of the rest of the source alone, only further on (`Cursor.read_eq`). Templates that stand one
behind the other are read in turn, and all but the last with an error.
-/

namespace MarkupTemplate

variable {source : String} {c d : Cursor} {t : Tree Span} {k : Nat}

theorem State.run_of_step_eq {s : State} (h : step s c = step s d) : run s c = run s d := by
  cases eq : step s d
  case ok q m    => rw [run_of_step eq, run_of_step (h.trans eq)]
  case error e m => rw [run_of_step_error eq, run_of_step_error (h.trans eq)]

-- Where a reading of the source leaves off.
def Reading.stop (source : String) : Reading → Nat
  | .ok _    => source.utf8ByteSize
  | .error e => e.position

namespace Cursor

-- The cursor after `k` readings.
def after : Nat → Cursor → Cursor
  | 0, c     => c
  | k + 1, c => after k c.read.2

-- Where the last of `k` readings leaves off.
def stopped (source : String) (k : Nat) : Nat :=
  (readings k (start source)).getLast?.elim 0 (Reading.stop source)

-- The same text is left, `k` bytes further on.
structure Ahead (k : Nat) (c d : Cursor) : Prop where
  rest     : d.rest = c.rest
  position : d.position = c.position + k

theorem lockstep_ahead (k : Nat) : Lockstep (· + k) (Ahead k) where
  position := Ahead.position
  abreast := by
    intro c d h
    cases eq : c.rest
    case nil => exact .ended eq (h.rest.trans eq)
    case cons x cs =>
      cases solid : isBlank x
      case true =>
        refine .blanks (by simp [eq, solid]) (by simp [h.rest, eq, solid]) ⟨?_, ?_⟩
        · simp [skip, h.rest]
        · simp [skip, h.rest, h.position, Nat.add_right_comm]
      case false =>
        have left : c.Reads [x] ⟨c.position + x.utf8Size, cs⟩ := ⟨eq, rfl⟩
        have right : d.Reads [x] ⟨d.position + x.utf8Size, cs⟩ := ⟨h.rest.trans eq, rfl⟩
        exact .sign solid left right ⟨rfl, by simp [h.position, Nat.add_right_comm]⟩

theorem read_eq (c : Cursor) :
    c.read.1 = Reading.move (· + c.position) (Tree.parse (.ofList c.rest)) := by
  have ahead : Ahead c.position (start (.ofList c.rest)) c := ⟨by simp [start], by simp [start]⟩
  exact ((lockstep_ahead _).read ahead).1

theorem exists_reads_read (c : Cursor) : ∃ cs, c.Reads cs c.read.2 := by
  rw [read]
  cases eq : Scan.template c
  case error e d => exact Scan.template_consumes.error eq
  case ok t d    =>
    obtain ⟨cs, reads, _⟩ := Scan.template_consumes.ok eq
    exact ⟨cs, reads⟩

theorem rest_of_read (h : c.read.1 = .ok t) : c.read.2.rest = [] := by
  rw [read] at h ⊢
  cases eq : Scan.template c
  case error e d => simp [eq] at h
  case ok u d    =>
    obtain ⟨_, _, _, _, last, _⟩ := Scan.template_eq_ok_iff.mp eq
    exact last

theorem stop_read {cs : List Char} (reads : (start source).Reads cs c) :
    Reading.stop source c.read.1 = c.read.2.position := by
  cases eq : c.read.1
  case error e =>
    rw [read] at eq ⊢
    cases eq' : Scan.template c
    all_goals simp [eq'] at eq
    simp [Reading.stop, ← eq]
  case ok t =>
    obtain ⟨ds, reads'⟩ := exists_reads_read c
    obtain ⟨text, position⟩ := start_reads_iff.mp (reads.trans reads')
    simp [Reading.stop, ← Bytes.length_toList, text, position, rest_of_read eq]

theorem after_succ (k : Nat) (c : Cursor) : after (k + 1) c = (after k c).read.2 := by
  induction k generalizing c with
  | zero => rfl
  | succ k ih => exact ih c.read.2

theorem readings_add (k n : Nat) (c : Cursor) :
    readings (k + n) c = readings k c ++ readings n (after k c) := by
  induction k generalizing c with
  | zero => simp [readings, after]
  | succ k ih => simp [Nat.succ_add, readings, after, ih]

theorem readings_succ (k : Nat) (c : Cursor) :
    readings (k + 1) c = readings k c ++ [(after k c).read.1] :=
  readings_add k 1 c

theorem getElem?_readings {n : Nat} (lt : k < n) (c : Cursor) :
    (readings n c)[k]? = some (after k c).read.1 := by
  induction n generalizing k c with
  | zero => cases lt
  | succ n ih =>
    cases k
    case zero   => rfl
    case succ k => exact ih (Nat.lt_of_succ_lt_succ lt) c.read.2

theorem exists_reads_after (k : Nat) (c : Cursor) : ∃ cs, c.Reads cs (after k c) := by
  induction k generalizing c with
  | zero => exact ⟨[], .refl⟩
  | succ k ih =>
    have ⟨_, first⟩ := exists_reads_read c
    have ⟨_, others⟩ := ih c.read.2
    exact ⟨_, first.trans others⟩

theorem stopped_eq (source : String) (k : Nat) :
    stopped source k = (after k (start source)).position := by
  cases k
  case zero   => rfl
  case succ k =>
    have ⟨_, reads⟩ := exists_reads_after k (start source)
    simp [stopped, readings_succ, after_succ, stop_read reads]

theorem read_of_ended (h : c.rest = []) : c.read = (.error ⟨.unexpected, c.position⟩, c) := by
  obtain ⟨p, rest⟩ := c
  cases h
  have step : State.step (.content []) ⟨p, []⟩ = .error .unexpected ⟨p, []⟩ := rfl
  have failed : Scan.template ⟨p, []⟩ = .error .unexpected ⟨p, []⟩ :=
    Scan.bind_eq_error_iff.mpr (.inl (State.run_of_step_error step))
  rw [read, failed]

theorem readings_of_ended (h : c.rest = []) (n : Nat) :
    readings n c = List.replicate n (.error ⟨.unexpected, c.position⟩) := by
  induction n with
  | zero => rfl
  | succ n ih => simp [readings, read_of_ended h, ih, List.replicate_succ]

-- After `k` readings the next one is a reading of `after`.
structure Resumes (source : String) (k : Nat) (before after : String) : Prop where
  split   : source = before ++ after
  cursor  : Cursor.after k (start source) = ⟨before.utf8ByteSize, after.toList⟩
  stopped : Cursor.stopped source k = before.utf8ByteSize
  next    : readings (k + 1) (start source) = readings k (start source) ++
    [Reading.move (· + Cursor.stopped source k) (Tree.parse after)]
  forward : Cursor.stopped source k ≤ Cursor.stopped source (k + 1)
  ended   : ∀ t, (readings k (start source)).getLast? = some (.ok t) → ∀ n,
    readings (k + n) (start source) = readings k (start source) ++
      List.replicate n (.error ⟨.unexpected, source.utf8ByteSize⟩)

theorem resumes (source : String) (k : Nat) : ∃ before after, Resumes source k before after := by
  have ⟨cs, reads⟩ := exists_reads_after k (start source)
  have ⟨split, size⟩ := reads.split
  have stopped := stopped_eq source k
  refine ⟨.ofList cs, .ofList (after k (start source)).rest, ?_⟩
  constructor
  case split   => exact split
  case cursor  => rw [size, String.toList_ofList]
  case stopped => rw [stopped, size]
  case next    => rw [readings_succ, read_eq, stopped]
  case forward =>
    have ⟨_, further⟩ := exists_reads_read (after k (start source))
    rw [stopped, stopped_eq, after_succ, further.position]
    exact Nat.le_add_right ..
  case ended =>
    intro t last n
    cases k
    case zero   => cases last
    case succ k =>
      have ok : (after k (start source)).read.1 = .ok t := by simpa [readings_succ] using last
      have none : (after (k + 1) (start source)).rest = [] := after_succ k _ ▸ rest_of_read ok
      rw [readings_add, readings_of_ended none, ← stopped]
      simp [Cursor.stopped, last, Reading.stop]

theorem skip_blanks_idem (c : Cursor) : (c.skip isBlank).skip isBlank = c.skip isBlank :=
  skip_of_not_leads Leads.not_dropWhile

theorem read_skip_blanks (c : Cursor) : (c.skip isBlank).read = c.read := by
  have blanks : Scan.blanks (c.skip isBlank) = .ok () (c.skip isBlank) :=
    congrArg (EStateM.Result.ok ()) c.skip_blanks_idem
  have step : State.step (.content []) (c.skip isBlank) = State.step (.content []) c :=
    Scan.bind_eq_of_ok blanks
  have run := State.run_of_step_eq step
  have template : Scan.template (c.skip isBlank) = Scan.template c := by
    simp only [Scan.template, Bind.bind, EStateM.bind, run]
  rw [read, template, read]

-- A template is read to the end of the blanks behind it, where nothing else may stand.
theorem read_append {s : String} (parsed : Tree.parse s = .ok t) {w : List Char}
    (h : c.rest = s.toList ++ w) :
    let d : Cursor := skip isBlank ⟨c.position + s.utf8ByteSize, w⟩
    c.read = (if d.rest = [] then .ok (t.map (.shift c.position))
      else .error ⟨.unexpected, d.position⟩, d) := by
  intro d
  have ⟨n, b, proper, text, eq⟩ := Tree.parse_eq_ok_iff.mp parsed
  let b' : Blanks := ⟨w.takeWhile isBlank, fun _ => List.mem_takeWhile_imp⟩
  have reads : c.Reads (n.text ++ (b.append b').text) d := by
    constructor
    case rest     => simp [h, text, d, b', skip]
    case position => simp [d, b', skip, ← Bytes.length_toList, text, Nat.add_assoc]
  have tree : n.tree c.position = t.map (.shift c.position) := by
    rw [eq, ← n.tree_add, Nat.zero_add]
  rw [read, Scan.template_of_reads proper reads Leads.not_dropWhile, tree]
  by_cases last : d.rest = []
  case pos => simp only [if_pos last]
  case neg => simp only [if_neg last]

end Cursor

theorem Tree.exists_sign_of_parse {s : String} (parsed : parse s = .ok t) :
    ∃ (b : Blanks) (x : Char) (rest : List Char), s.toList = b.text ++ x :: rest ∧
      isBlank x = false := by
  have ⟨b, rest, text, ends⟩ := Blanks.exists_append s.toList
  cases rest
  case cons x rest => exact ⟨b, x, rest, text, by simpa using ends⟩
  case nil =>
    have ended : ((Cursor.start s).skip isBlank).rest = [] := by
      simp [Cursor.skip, Cursor.start, text, List.dropWhile_eq_nil_iff.mpr b.blank]
    have failed := Cursor.read_of_ended ended
    rw [Cursor.read_skip_blanks] at failed
    rw [parse, failed] at parsed
    cases parsed

namespace Cursor

variable {ss : List String}

-- The first of the templates `ss` that are left after `k` of them.
def front (ss : List String) (k : Nat) : Cursor :=
  ⟨(String.join (ss.take k)).utf8ByteSize, (String.join (ss.drop k)).toList⟩

theorem read_front {s : String} (here : ss[k]? = some s) (parsed : Tree.parse s = .ok t) :
    let d := (front ss (k + 1)).skip isBlank
    (front ss k).read = (if d.rest = [] then .ok (t.map (.shift (front ss k).position))
      else .error ⟨.unexpected, d.position⟩, d) := by
  have ⟨lt, eq⟩ := List.getElem?_eq_some_iff.mp here
  have rest : (front ss k).rest = s.toList ++ (String.join (ss.drop (k + 1))).toList := by
    simp [front, List.drop_eq_getElem_cons lt, eq]
  have position : (front ss (k + 1)).position = (front ss k).position + s.utf8ByteSize := by
    simp [front, List.take_succ_eq_append_getElem lt, eq, String.join_append]
  have read := read_append parsed rest
  rw [← position] at read
  exact read

theorem skip_after (valid : ∀ s ∈ ss, ∃ t, Tree.parse s = .ok t) (le : k ≤ ss.length) :
    (after k (start (String.join ss))).skip isBlank = (front ss k).skip isBlank := by
  induction k with
  | zero => simp [after, front, start]
  | succ k ih =>
    have here := List.getElem?_eq_getElem le
    obtain ⟨t, parsed⟩ := valid _ (List.getElem_mem le)
    have same := ih (Nat.le_of_succ_le le)
    rw [after_succ, ← read_skip_blanks, same, read_skip_blanks, read_front here parsed,
      skip_blanks_idem]

-- The `k`-th of the templates is `s`. Unless it is the last, its reading stops at the next one.
structure InTurn (ss : List String) (k : Nat) (s : String) : Prop where
  stops : ∀ s', ss[k + 1]? = some s' →
    ∃ (b : Blanks) (x : Char) (rest : List Char), s'.toList = b.text ++ x :: rest ∧
      isBlank x = false ∧
        (readings ss.length (start (String.join ss)))[k]? = some (.error ⟨.unexpected,
          (String.join (ss.take (k + 1))).utf8ByteSize + Bytes.length b.text⟩)
  ends  : ss[k + 1]? = none → ∀ t, Tree.parse s = .ok t →
    (readings ss.length (start (String.join ss)))[k]? =
      some (.ok (t.map (.shift (String.join (ss.take k)).utf8ByteSize)))

theorem inTurn (valid : ∀ s ∈ ss, ∃ t, Tree.parse s = .ok t) {s : String}
    (here : ss[k]? = some s) : InTurn ss k s := by
  have ⟨lt, _⟩ := List.getElem?_eq_some_iff.mp here
  have result : (readings ss.length (start (String.join ss)))[k]? =
      some (front ss k).read.1 := by
    have same := skip_after valid (Nat.le_of_lt lt)
    rw [getElem?_readings lt, ← read_skip_blanks, same, read_skip_blanks]
  constructor
  case stops =>
    intro s' next
    have ⟨t, parsed⟩ := valid s (List.mem_of_getElem? here)
    have ⟨u, parsed'⟩ := valid s' (List.mem_of_getElem? next)
    have ⟨b, x, rest, text, solid⟩ := Tree.exists_sign_of_parse parsed'
    have ⟨lt', eq⟩ := List.getElem?_eq_some_iff.mp next
    have ahead : (front ss (k + 1)).rest =
        b.text ++ x :: (rest ++ (String.join (ss.drop (k + 2))).toList) := by
      simp [front, List.drop_eq_getElem_cons lt', eq, text]
    have ends : ¬Leads isBlank (x :: (rest ++ (String.join (ss.drop (k + 2))).toList)) := by
      simp [solid]
    refine ⟨b, x, rest, text, solid, ?_⟩
    rw [result, read_front here parsed]
    simp only [skip, ahead, Leads.dropWhile_append b.blank ends, Leads.takeWhile_append b.blank ends,
      reduceCtorEq, ↓reduceIte]
    rfl
  case ends =>
    intro none t parsed
    have last : ss.length ≤ k + 1 := List.getElem?_eq_none_iff.mp none
    have ended : ((front ss (k + 1)).skip isBlank).rest = [] := by
      simp [skip, front, List.drop_eq_nil_of_le last]
    rw [result, read_front here parsed]
    simp only [if_pos ended]
    rfl

theorem readings_resume :
    (∀ source k, ∃ before after, Resumes source k before after) ∧
      ∀ ss : List String, (∀ s ∈ ss, ∃ t, Tree.parse s = .ok t) →
        ∀ k s, ss[k]? = some s → InTurn ss k s :=
  ⟨resumes, fun _ valid _ _ => inTurn valid⟩

-- The second reading begins within the tag that the first one could not finish.
theorem readings_resume_twice :
    readings 5 (start "<é \x7bé\x7d") = .error ⟨.unnamed .attributeName, 4⟩ ::
      .ok ⟨⟨5, 7⟩, .var "é"⟩ :: List.replicate 3 (.error ⟨.unexpected, 8⟩) ∧
    (readings 2 (start ("\x7bé\x7d " ++ "\n<é></é>")))[1]? =
      some (.ok ⟨⟨6, 15⟩, .element "é" [] []⟩) := by
  refine ⟨?again, ?turn⟩
  case again =>
    have first : readings 2 (start "<é \x7bé\x7d") =
        [.error ⟨.unnamed .attributeName, 4⟩, .ok ⟨⟨5, 7⟩, .var "é"⟩] := by decide +kernel
    have ⟨_, _, resumes⟩ := readings_resume.1 "<é \x7bé\x7d" 2
    have again := resumes.ended _ (by rw [first]; rfl) 3
    rw [first] at again
    exact again
  case turn =>
    let ss := ["\x7bé\x7d ", "\n<é></é>"]
    have first : Tree.parse "\x7bé\x7d " = .ok ⟨⟨1, 3⟩, .var "é"⟩ := by decide +kernel
    have second : Tree.parse "\n<é></é>" = .ok ⟨⟨1, 10⟩, .element "é" [] []⟩ := by decide +kernel
    have valid : ∀ s ∈ ss, ∃ t, Tree.parse s = .ok t := by
      simp only [ss, List.forall_mem_cons]
      exact ⟨⟨_, first⟩, ⟨_, second⟩, nofun⟩
    exact (readings_resume.2 ss valid 1 _ rfl).ends rfl _ second

end Cursor
end MarkupTemplate
