import MarkupTemplate.Proofs.Evaluation.Outcome
import MarkupTemplate.Proofs.Place.Path
import MarkupTemplate.Proofs.Scoping.Free

/-!
Putting a tree in the place of a part of another. `Exchange.sameIn_put` says when this makes no
difference to the whole: the new part has to come to what the old one comes to, in all scopes that
evaluation takes to its place. So a part can be evaluated first, and a name for its value can stand
there.
-/

namespace MarkupTemplate

namespace Node

variable {α : Type}

def put : Node α → Turn → α → Node α
  | element tag attributes body, .value k, a =>
    element tag (attributes.modify k fun b => (b.1, a)) body
  | element tag attributes body, .child k, a => element tag attributes (body.modify k fun _ => a)
  | loop binder _ body, .collection, a => loop binder a body
  | loop binder collection body, .child k, a =>
    loop binder collection (body.modify k fun _ => a)
  | n, _, _ => n

theorem part?_put {n : Node α} {turn : Turn} {a : α} (part : n.part? turn = some a) (b : α) :
    (n.put turn b).part? turn = some b := by
  cases n <;> cases turn <;> simp only [part?, put, reduceCtorEq] at part ⊢
  case element.value tag attributes body k =>
    obtain ⟨_, here, _⟩ := Option.map_eq_some_iff.mp part
    simp [here]
  case element.child  => simp [part]
  case loop.child     => simp [part]

end Node

namespace Tree

variable {ι : Type} {t u v w : Tree ι} {turn : Turn} {path : List Turn} {scope scope' : Scope}
  {x : String}

-- The tree `u` in the place of what is found at the end of the path.
def put : Tree ι → List Turn → Tree ι → Tree ι
  | _, [], u           => u
  | t, turn :: path, u =>
    match t.node.part? turn with
    | some v => ⟨t.site, t.node.put turn (v.put path u)⟩
    | none   => t

theorem put_cons (part : t.node.part? turn = some v) :
    t.put (turn :: path) w = ⟨t.site, t.node.put turn (v.put path w)⟩ := by
  simp [put, part]

theorem at?_put (here : t.at? path = some u) (w : Tree ι) : (t.put path w).at? path = some w := by
  induction path generalizing t with
  | nil => rfl
  | cons turn path ih =>
    have ⟨v, part, deeper⟩ := at?_cons_eq_some_iff.mp here
    rw [put_cons part]
    exact at?_cons_eq_some_iff.mpr ⟨_, Node.part?_put part _, ih deeper⟩

theorem forall₂_modify {α : Type} {R : α → α → Prop} {as : List α} {k : Nat} {a : α} {f : α → α}
    (here : as[k]? = some a) (beside : ∀ b ∈ as, R b b) (there : R a (f a)) :
    List.Forall₂ R as (as.modify k f) := by
  induction as generalizing k with
  | nil => cases here
  | cons b as ih =>
    have ⟨first, others⟩ := List.forall_mem_cons.mp beside
    cases k with
    | zero =>
      cases here
      exact .cons there (List.forall₂_same.mpr others)
    | succ k => exact .cons first (ih here others)

theorem mem_names_of_mem_children (h : u ∈ t.node.children) (hx : x ∈ u.names) : x ∈ t.names := by
  obtain ⟨site, _ | ⟨tag, attributes, body⟩ | ⟨binder, collection, body⟩⟩ := t
  case var => cases h
  case element =>
    rw [mem_names_element]
    cases List.mem_append.mp h
    case inl h =>
      have ⟨a, ha, eq⟩ := List.mem_map.mp h
      exact .inl ⟨a, ha, eq ▸ hx⟩
    case inr h => exact .inr ⟨u, h, hx⟩
  case loop =>
    rw [mem_names_loop]
    cases h
    case head   => exact .inr (.inl hx)
    case tail h => exact .inr (.inr ⟨u, h, hx⟩)

theorem sameIn_of_mem_children (agree : Scope.AgreeOn t.names scope scope')
    (h : u ∈ t.node.children) : SameIn scope scope' u u :=
  sameIn_of_agree fun y hy => agree y (mem_names_of_mem_children h (mem_names_of_mem_free hy))

theorem mem_names_of_mem_binders (h : x ∈ t.binders path) : x ∈ t.names := by
  induction path generalizing t with
  | nil => cases h
  | cons turn path ih =>
    cases List.mem_append.mp h
    case inl h =>
      obtain ⟨_, _ | _ | ⟨binder, collection, body⟩⟩ := t
      case loop =>
        cases turn
        case child => exact mem_names_loop.mpr (.inl (List.mem_singleton.mp h))
        all_goals cases h
      all_goals cases h
    case inr h =>
      cases part : t.node.part? turn
      case none   => simp [part] at h
      case some u =>
        simp only [part, Option.elim_some] at h
        exact mem_names_of_mem_children (Node.mem_children_iff.mpr ⟨turn, part⟩) (ih h)

-- The scopes before and after a change at the end of the path differ, but not for the names in the
-- tree, and not in a way that a loop on the path could end.
structure Exchange (t : Tree ι) (path : List Turn) (r : Scope → Scope → Prop) : Prop where
  agree : ∀ {s s'}, r s s' → Scope.AgreeOn t.names s s'
  bind  : ∀ {s s'}, r s s' → ∀ y ∈ t.binders path, ∀ v, r (s.bind y v) (s'.bind y v)

namespace Exchange

variable {r : Scope → Scope → Prop}

theorem below (h : t.Exchange (turn :: path) r) (part : t.node.part? turn = some v) :
    v.Exchange path r where
  agree related y hy :=
    h.agree related y (mem_names_of_mem_children (Node.mem_children_iff.mpr ⟨turn, part⟩) hy)
  bind related y hy := h.bind related y (by simp [binders_cons part, hy])

theorem sameIn_put (h : t.Exchange path r) (here : t.at? path = some u) (site : w.site = u.site)
    (there : ∀ s s', r s s' → u.evaluate s = w.evaluate s') (related : r scope scope') :
    SameIn scope scope' t (t.put path w) := by
  induction path generalizing t scope scope' with
  | nil =>
    cases here
    exact ⟨site.symm, there _ _ related⟩
  | cons turn path ih =>
    obtain ⟨v, part, deeper⟩ := at?_cons_eq_some_iff.mp here
    have changed {s s'} (related : r s s') := ih (h.below part) deeper related
    -- The parts beside the path stay as they are, and so do the names that they ask for.
    have beside {s s'} (agree : Scope.AgreeOn t.names s s') :=
      fun b => sameIn_of_mem_children (u := b) agree
    rw [put_cons part]
    obtain ⟨_, _ | ⟨tag, attributes, body⟩ | ⟨binder, collection, body⟩⟩ := t
    case var => cases part
    all_goals
      cases turn
      all_goals simp only [Node.part?, reduceCtorEq] at part
    case element.value k =>
      have agree := h.agree related
      obtain ⟨a, ha, eq⟩ := Option.map_eq_some_iff.mp part
      apply SameIn.element
      case values =>
        refine forall₂_modify ha (fun b hb => ⟨rfl, ?_⟩) ⟨rfl, eq ▸ changed related⟩
        exact beside agree _ (List.mem_append_left _ (List.mem_map_of_mem hb))
      case body =>
        exact List.forall₂_same.mpr fun b hb => beside agree b (List.mem_append_right _ hb)
    case element.child k =>
      have agree := h.agree related
      apply SameIn.element
      case values =>
        refine List.forall₂_same.mpr fun b hb => ⟨rfl, ?_⟩
        exact beside agree _ (List.mem_append_left _ (List.mem_map_of_mem hb))
      case body =>
        refine forall₂_modify part (fun b hb => ?_) (changed related)
        exact beside agree b (List.mem_append_right _ hb)
    case loop.collection =>
      cases part
      apply SameIn.loop (changed related)
      intro item
      refine List.forall₂_same.mpr fun b hb => ?_
      exact beside (Scope.agreeOn_bind (fun y hy _ => h.agree related y hy) item) b
        (List.mem_cons_of_mem _ hb)
    case loop.child k =>
      apply SameIn.loop (beside (h.agree related) collection List.mem_cons_self)
      intro item
      have inner := h.bind related binder (by simp [binders, Node.binds]) item
      refine forall₂_modify part (fun b hb => ?_) (changed inner)
      exact beside (h.agree inner) b (List.mem_cons_of_mem _ hb)

end Exchange

theorem put_var_evaluate {v : Value} (here : t.at? path = some u)
    (free : ∀ y ∈ u.free, y ∉ t.binders path) (fresh : x ∉ t.names)
    (value : u.evaluate scope = .ok v) :
    let s := t.put path ⟨u.site, .var x⟩
    s.at? path = some ⟨u.site, .var x⟩ ∧ s.evaluate (scope.bind x v) = t.evaluate scope := by
  -- No loop on the way to the part binds a name that it asks for, so it has one value throughout.
  let r (s s' : Scope) : Prop := s' = s.bind x v ∧ u.evaluate s = .ok v
  have exchange : t.Exchange path r := by
    constructor
    case agree =>
      intro s s' ⟨eq, _⟩ y hy
      have ne : x ≠ y := fun eq => fresh (eq ▸ hy)
      simp only [eq, Scope.get?_bind, if_neg ne]
    case bind =>
      intro s s' ⟨eq, value⟩ y hy w
      have ne : x ≠ y := fun eq => fresh (eq ▸ mem_names_of_mem_binders hy)
      refine ⟨by rw [eq, Scope.bind_comm ne], ?_⟩
      rw [evaluate_bind_of_not_mem_free (fun mem => free y mem hy), value]
  have there (s s' : Scope) (related : r s s') :
      u.evaluate s = evaluate ⟨u.site, .var x⟩ s' := by
    have found : s'.find x = .ok v := find_eq_ok_iff.mpr (by simp [related.1])
    rw [related.2, evaluate, found]
    rfl
  have same := exchange.sameIn_put (w := ⟨u.site, .var x⟩) here rfl there ⟨rfl, value⟩
  exact ⟨at?_put here _, same.evaluate.symm⟩

-- The part stands in a loop and is evaluated twice before the second item turns out to be a list.
theorem put_var_evaluate_in_loop :
    let part : Tree Span := ⟨⟨15, 25⟩, .element "b" [] [⟨⟨19, 20⟩, .var "t"⟩]⟩
    let item : Tree Span := ⟨⟨26, 27⟩, .var "i"⟩
    let loop (inner : Tree Span) : Tree Span :=
      ⟨⟨1, 32⟩, .loop "i" ⟨⟨10, 12⟩, .var "is"⟩ [inner, item]⟩
    let scope := (Scope.empty.bind "t" (.text "<")).bind "is" (.list [.text "y", .list []])
    part.evaluate scope = .ok (.markup "<b>&lt;</b>") ∧
      (loop ⟨⟨15, 25⟩, .var "x"⟩).evaluate (scope.bind "x" (.markup "<b>&lt;</b>")) =
        .error ⟨.notRenderable, ⟨26, 27⟩⟩ := by
  intro part item loop scope
  have value : part.evaluate scope = .ok (.markup "<b>&lt;</b>") := by decide +kernel
  have failed : (loop part).evaluate scope = .error ⟨.notRenderable, ⟨26, 27⟩⟩ := by
    decide +kernel
  have here : (loop part).at? [.child 0] = some part := rfl
  have ⟨_, same⟩ := put_var_evaluate (x := "x") here (by decide) (by decide) value
  exact ⟨value, same.trans failed⟩

end Tree
end MarkupTemplate
