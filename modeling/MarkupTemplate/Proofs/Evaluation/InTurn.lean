import MarkupTemplate.Proofs.Evaluation.Joined
import MarkupTemplate.Proofs.Scoping.Free

/-!
Bodies and loops part by part. What is evaluated one after the other is `InTurn`: the texts are
joined, and the first failure is that of the whole. `evaluate_inTurn` says so for the parts of a
body, be it in a tag or in a loop, and for the items of a loop, which see nothing of each other.
-/

namespace MarkupTemplate

open EvaluationError

-- The last outcome is that of the listed ones together. A text is wrapped up in each of them.
inductive InTurn {ε α : Type} (wrap : String → α) : List (Except ε α) → Except ε α → Prop where
  | nil : InTurn wrap [] (.ok (wrap ""))
  | ok {s s' : String} {xs : List (Except ε α)} :
    InTurn wrap xs (.ok (wrap s')) → InTurn wrap (.ok (wrap s) :: xs) (.ok (wrap (s ++ s')))
  | later {s : String} {e : ε} {xs : List (Except ε α)} :
    InTurn wrap xs (.error e) → InTurn wrap (.ok (wrap s) :: xs) (.error e)
  | now {e : ε} {xs : List (Except ε α)} : InTurn wrap (.error e :: xs) (.error e)

section

variable {ε α β : Type}

theorem InTurn.unique {wrap : String → α} {xs : List (Except ε α)} {x y : Except ε α}
    (injective : wrap.Injective) (hx : InTurn wrap xs x) (hy : InTurn wrap xs y) : x = y := by
  induction hx generalizing y with
  | nil => cases hy; rfl
  | @ok s _ xs _ ih =>
    -- The two lists of outcomes are the same only by what is wrapped up in them.
    generalize eq : .ok (wrap s) :: xs = ys at hy
    cases hy with
    | ok rest =>
      obtain ⟨first, rfl⟩ := List.cons.inj eq
      rw [injective (Except.ok.inj first), injective (Except.ok.inj (ih rest))]
    | later rest =>
      obtain ⟨_, rfl⟩ := List.cons.inj eq
      cases ih rest
    | nil | now => cases eq
  | @later s _ xs _ ih =>
    generalize eq : .ok (wrap s) :: xs = ys at hy
    cases hy with
    | ok rest =>
      obtain ⟨_, rfl⟩ := List.cons.inj eq
      cases ih rest
    | later rest =>
      obtain ⟨_, rfl⟩ := List.cons.inj eq
      exact ih rest
    | nil | now => cases eq
  | now => cases hy; rfl

theorem inTurn_joined (wrap : String → α) (f : β → Except ε String) (bs : List β) :
    InTurn wrap (bs.map fun b => wrap <$> f b) (wrap <$> joined f bs) := by
  induction bs with
  | nil => exact .nil
  | cons b bs ih =>
    rw [List.map_cons, joined_cons]
    cases f b
    case error e => exact .now
    case ok s =>
      cases others : joined f bs <;> rw [others] at ih
      case ok s'   => exact .ok ih
      case error e => exact .later ih

-- The two parts need not be single items.
theorem inTurn_joined_append (wrap : String → α) (f : β → Except ε String) (as bs : List β) :
    InTurn wrap [wrap <$> joined f as, wrap <$> joined f bs] (wrap <$> joined f (as ++ bs)) := by
  have parts := inTurn_joined wrap (joined f) [as, bs]
  rw [← joined_flatten] at parts
  simpa using parts

end

namespace Tree

variable {ι : Type} {scope : Scope}

section

variable {site here : ι} {x binder : String} {collection : Tree ι} {body : List (Tree ι)}

theorem evaluate_loop_of_list {items : List Value}
    (bound : collection.evaluate scope = .ok (.list items)) :
    evaluate ⟨site, .loop binder collection body⟩ scope =
      .markup <$> joined (fun item => evaluateBody body (scope.bind binder item)) items := by
  rw [evaluate_loop, bound]
  rfl

-- The body does not see the collection by its name, unless the loop binds this name itself.
theorem evaluateBody_bind_collection (unseen : x ≠ binder → ∀ t ∈ body, x ∉ t.free)
    (v item : Value) :
    evaluateBody body ((scope.bind x v).bind binder item) =
      evaluateBody body (scope.bind binder item) := by
  apply evaluateBody_of_forall₂
  refine List.forall₂_same.mpr fun t ht => sameIn_of_agree ?_
  refine Scope.agreeOn_bind (fun z hz ne => ?_) item
  have ne' : x ≠ z := by
    intro eq
    rw [← eq] at hz ne
    exact unseen ne t ht hz
  rw [Scope.get?_bind, if_neg ne']

theorem evaluate_loop_bind (unseen : x ≠ binder → ∀ t ∈ body, x ∉ t.free) (items : List Value) :
    evaluate ⟨site, .loop binder ⟨here, .var x⟩ body⟩ (scope.bind x (.list items)) =
      .markup <$> joined (fun item => evaluateBody body (scope.bind binder item)) items := by
  have bound : evaluate ⟨here, .var x⟩ (scope.bind x (.list items)) = .ok (.list items) := by
    rw [evaluate, Scope.find, Scope.get?_bind_self]
    rfl
  simp only [evaluate_loop_of_list bound, evaluateBody_bind_collection unseen]

end

-- An element without attributes as it stands on the page.
def enclose (tag inner : String) : Value :=
  .markup ("<" ++ tag ++ ">" ++ inner ++ "</" ++ tag ++ ">")

theorem injective_enclose (tag : String) : (enclose tag).Injective := by
  intro s t eq
  have eq := congrArg String.toList (Value.markup.inj eq)
  exact String.toList_inj.mp (by simpa using eq)

theorem evaluate_element_nil (site : ι) (tag : String) (ts : List (Tree ι)) (scope : Scope) :
    evaluate ⟨site, .element tag [] ts⟩ scope = enclose tag <$> joined (place scope) ts := by
  have enclose_eq : enclose tag =
      fun inner => .markup ("<" ++ tag ++ ">" ++ inner ++ "</" ++ tag ++ ">") := rfl
  simp [evaluate, evaluateAttributes, evaluateBody_eq_joined, enclose_eq]

theorem evaluate_inTurn (site here : ι) (scope : Scope) :
    (∀ (binder x : String) (body : List (Tree ι)), (x ≠ binder → ∀ t ∈ body, x ∉ t.free) →
      let loop (items : List Value) :=
        evaluate ⟨site, .loop binder ⟨here, .var x⟩ body⟩ (scope.bind x (.list items))
      (∀ vs ws, InTurn .markup [loop vs, loop ws] (loop (vs ++ ws))) ∧
        (∀ items, InTurn .markup (items.map fun item => loop [item]) (loop items)) ∧
        ∀ item ts us, body = ts ++ us →
          let part (ts : List (Tree ι)) := evaluateBody ts (scope.bind binder item)
          InTurn .markup [.markup <$> part ts, .markup <$> part us] (loop [item])) ∧
    (∀ (tag : String) (ts us : List (Tree ι)),
      let part (ts : List (Tree ι)) := enclose tag <$> evaluateBody ts scope
      InTurn (enclose tag) [part ts, part us]
        (evaluate ⟨site, .element tag [] (ts ++ us)⟩ scope)) ∧
    (∀ ts us : List (Tree ι),
      InTurn id [evaluateBody ts scope, evaluateBody us scope] (evaluateBody (ts ++ us) scope)) ∧
    ∀ ts : List (Tree ι), InTurn id (ts.map (place scope)) (evaluateBody ts scope) := by
  refine ⟨fun binder x body unseen => ?loops, fun tag ts us => ?elements, fun ts us => ?bodies,
    fun ts => ?nodes⟩
  case loops =>
    simp only [evaluate_loop_bind unseen, joined_singleton, evaluateBody_eq_joined]
    refine ⟨inTurn_joined_append Value.markup _, inTurn_joined Value.markup _, ?_⟩
    rintro item ts us rfl
    exact inTurn_joined_append Value.markup _ ts us
  case elements =>
    simp only [evaluate_element_nil, evaluateBody_eq_joined]
    exact inTurn_joined_append (enclose tag) _ ts us
  case bodies =>
    simp only [evaluateBody_eq_joined]
    simpa using inTurn_joined_append id (place scope) ts us
  case nodes =>
    rw [evaluateBody_eq_joined]
    simpa using inTurn_joined id (place scope) ts

-- Each item is itself run over by a loop that binds the same name. The last one is no list.
theorem evaluate_inTurn_shadowed :
    let scope := Scope.empty.bind "y" (.text "!")
    let inner : Tree Span := ⟨⟨17, 39⟩, .loop "x" ⟨⟨26, 27⟩, .var "x"⟩ [⟨⟨31, 32⟩, .var "x"⟩]⟩
    let bold : Tree Span :=
      ⟨⟨41, 58⟩, .element "b" [] [⟨⟨46, 47⟩, .var "y"⟩, ⟨⟨51, 52⟩, .var "y"⟩]⟩
    let loop (items : List Value) :=
      evaluate ⟨⟨2, 63⟩, .loop "x" ⟨⟨11, 13⟩, .var "xs"⟩ [inner, bold]⟩
        (scope.bind "xs" (.list items))
    let as : List Value := [.list [.text "a", .text "<"], .list []]
    bold.evaluate scope = .ok (.markup "<b>!!</b>") ∧
      loop [.list [.text "a"]] = .ok (.markup "a<b>!!</b>") ∧
      loop (as ++ [.text "b"]) = .error ⟨.notList, ⟨26, 27⟩⟩ := by
  intro scope inner bold loop as
  have ⟨_, elements, _⟩ := evaluate_inTurn (⟨41, 58⟩ : Span) ⟨11, 13⟩ scope
  have ⟨loops, _⟩ := evaluate_inTurn (⟨2, 63⟩ : Span) ⟨11, 13⟩ scope
  have ⟨items, _, iteration⟩ := loops "x" "xs" [inner, bold] (by decide)
  have markup : Value.markup.Injective := fun _ _ => Value.markup.inj
  refine ⟨?tag, ?iteration, ?items⟩
  case tag =>
    have parts := elements "b" [⟨⟨46, 47⟩, .var "y"⟩] [⟨⟨51, 52⟩, .var "y"⟩]
    exact parts.unique (injective_enclose "b") (.ok (.ok .nil))
  case iteration =>
    let part (t : Tree Span) := evaluateBody [t] (scope.bind "x" (.list [.text "a"]))
    have parts : InTurn .markup [.markup <$> part inner, .markup <$> part bold]
        (loop [.list [.text "a"]]) :=
      iteration (.list [.text "a"]) [inner] [bold] rfl
    have first : part inner = .ok "a" := by decide +kernel
    have second : part bold = .ok "<b>!!</b>" := by decide +kernel
    rw [first, second] at parts
    exact parts.unique markup (.ok (.ok .nil))
  case items =>
    have both : InTurn .markup [loop as, loop [.text "b"]] (loop (as ++ [.text "b"])) :=
      items as [.text "b"]
    have first : loop as = .ok (.markup "a&lt;<b>!!</b><b>!!</b>") := by decide +kernel
    have second : loop [.text "b"] = .error ⟨.notList, ⟨26, 27⟩⟩ := by decide +kernel
    rw [first, second] at both
    exact both.unique markup (.later .now)

end Tree
end MarkupTemplate
