import MarkupTemplate.Tree.Node

/-!
Template trees. Every node carries a site of type `ι`: a tree that was read has the span of each
node in its source there, and `shape` forgets the sites. `Tree.ind` is induction over the nodes
below a node.
-/

namespace MarkupTemplate

-- The attributes of a tree are a plain list. Reading a template never gives a name twice.
structure Tree (ι : Type) where
  site : ι
  node : Node (Tree ι)

-- A tree that tells nothing about where its nodes stand.
abbrev Shape :=
  Tree Unit

namespace Tree

variable {ι κ μ : Type}

@[elab_as_elim, induction_eliminator]
theorem ind {motive : Tree ι → Prop}
    (var : ∀ site name, motive ⟨site, .var name⟩)
    (element : ∀ site tag attributes body, (∀ a ∈ attributes, motive a.2) →
      (∀ t ∈ body, motive t) → motive ⟨site, .element tag attributes body⟩)
    (loop : ∀ site binder collection body, motive collection → (∀ t ∈ body, motive t) →
      motive ⟨site, .loop binder collection body⟩)
    (t : Tree ι) : motive t :=
  @Tree.rec ι motive (fun node => ∀ site, motive ⟨site, node⟩) (fun as => ∀ a ∈ as, motive a.2)
    (fun ts => ∀ t ∈ ts, motive t) (fun a => motive a.2)
    (fun site _ ih => ih site)
    (fun name site => var site name)
    (fun tag attributes body ihA ihB site => element site tag attributes body ihA ihB)
    (fun binder collection body ihC ihB site => loop site binder collection body ihC ihB)
    nofun (fun _ _ ih ihs => List.forall_mem_cons.mpr ⟨ih, ihs⟩)
    nofun (fun _ _ ih ihs => List.forall_mem_cons.mpr ⟨ih, ihs⟩)
    (fun _ _ ih => ih) t

mutual

def decEq [DecidableEq ι] : (t u : Tree ι) → Decidable (t = u)
  | ⟨s, .var x⟩, ⟨s', .var x'⟩ => decidable_of_iff (s = s' ∧ x = x') (by simp)
  | ⟨s, .element tag attributes body⟩, ⟨s', .element tag' attributes' body'⟩ =>
    have := decEqAttributes attributes attributes'
    have := decEqBody body body'
    decidable_of_iff (s = s' ∧ tag = tag' ∧ attributes = attributes' ∧ body = body') (by simp)
  | ⟨s, .loop x collection body⟩, ⟨s', .loop x' collection' body'⟩ =>
    have := collection.decEq collection'
    have := decEqBody body body'
    decidable_of_iff (s = s' ∧ x = x' ∧ collection = collection' ∧ body = body') (by simp)
  | ⟨_, .var _⟩, ⟨_, .element ..⟩ | ⟨_, .var _⟩, ⟨_, .loop ..⟩
  | ⟨_, .element ..⟩, ⟨_, .var _⟩ | ⟨_, .element ..⟩, ⟨_, .loop ..⟩
  | ⟨_, .loop ..⟩, ⟨_, .var _⟩ | ⟨_, .loop ..⟩, ⟨_, .element ..⟩ => isFalse nofun

def decEqAttributes [DecidableEq ι] : (as bs : List (String × Tree ι)) → Decidable (as = bs)
  | [], [] => isTrue rfl
  | (x, t) :: as, (y, u) :: bs =>
    have := t.decEq u
    have := decEqAttributes as bs
    decidable_of_iff (x = y ∧ t = u ∧ as = bs) (by simp [and_assoc])
  | [], _ :: _ | _ :: _, [] => isFalse nofun

def decEqBody [DecidableEq ι] : (ts us : List (Tree ι)) → Decidable (ts = us)
  | [], [] => isTrue rfl
  | t :: ts, u :: us =>
    have := t.decEq u
    have := decEqBody ts us
    decidable_of_iff (t = u ∧ ts = us) (by simp)
  | [], _ :: _ | _ :: _, [] => isFalse nofun

end

instance [DecidableEq ι] : DecidableEq (Tree ι) :=
  decEq

mutual

def map (f : ι → κ) : Tree ι → Tree κ
  | ⟨site, .var name⟩ => ⟨f site, .var name⟩
  | ⟨site, .element tag attributes body⟩ =>
    ⟨f site, .element tag (mapAttributes f attributes) (mapBody f body)⟩
  | ⟨site, .loop binder collection body⟩ =>
    ⟨f site, .loop binder (collection.map f) (mapBody f body)⟩

def mapAttributes (f : ι → κ) : List (String × Tree ι) → Attributes (Tree κ)
  | [] => []
  | (name, t) :: as => (name, t.map f) :: mapAttributes f as

def mapBody (f : ι → κ) : List (Tree ι) → List (Tree κ)
  | [] => []
  | t :: ts => t.map f :: mapBody f ts

end

@[simp]
theorem mapAttributes_eq (f : ι → κ) (as : Attributes (Tree ι)) :
    mapAttributes f as = as.mapEntries (Tree.map f) := by
  induction as with
  | nil => rfl
  | cons a as ih => simp_all [mapAttributes, Attributes.mapEntries]

@[simp]
theorem mapBody_eq (f : ι → κ) (ts : List (Tree ι)) : mapBody f ts = ts.map (Tree.map f) := by
  induction ts with
  | nil => rfl
  | cons t ts ih => simp_all [mapBody]

theorem map_eq (f : ι → κ) (t : Tree ι) : t.map f = ⟨f t.site, t.node.map (Tree.map f)⟩ := by
  obtain ⟨site, node⟩ := t
  cases node <;> simp [Tree.map, Node.map]

@[simp]
theorem site_map (f : ι → κ) (t : Tree ι) : (t.map f).site = f t.site := by
  simp [map_eq]

theorem map_map (f : ι → κ) (g : κ → μ) (t : Tree ι) : (t.map f).map g = t.map (g ∘ f) := by
  induction t with
  | var => rfl
  | element site tag attributes body ihA ihB =>
    simpa [Tree.map, Attributes.mapEntries] using ⟨fun name t h => ihA (name, t) h, ihB⟩
  | loop site binder collection body ihC ihB => simp_all [Tree.map]

def shape (t : Tree ι) : Shape :=
  t.map fun _ => ()

@[simp]
theorem shape_map (f : ι → κ) (t : Tree ι) : (t.map f).shape = t.shape := by
  simp [shape, map_map, Function.comp_def]

end Tree
end MarkupTemplate
