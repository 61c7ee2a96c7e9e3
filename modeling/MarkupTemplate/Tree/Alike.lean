import MarkupTemplate.Tree.Basic

/-!
Likeness of trees: equality up to the order in which the elements list their attributes.
-/

namespace MarkupTemplate.Tree

-- What is left when the first item that `like` accepts is taken out, if there is one.
def without {α : Type} (like : α → Bool) : List α → Option (List α)
  | [] => none
  | a :: as => if like a then some as else (without like as).map (a :: ·)

variable {ι : Type} [DecidableEq ι]

mutual

-- Attributes may stand in any order, everything else is compared in place.
def alike : Tree ι → Tree ι → Bool
  | ⟨s, .var x⟩, ⟨s', .var x'⟩ => s = s' && x = x'
  | ⟨s, .element tag attributes body⟩, ⟨s', .element tag' attributes' body'⟩ =>
    s = s' && tag = tag' && alikeAttributes attributes attributes' && alikeBody body body'
  | ⟨s, .loop x collection body⟩, ⟨s', .loop x' collection' body'⟩ =>
    s = s' && x = x' && collection.alike collection' && alikeBody body body'
  | _, _ => false

-- Each entry uses up one like it from the other side, and none is left over there.
def alikeAttributes : List (String × Tree ι) → List (String × Tree ι) → Bool
  | [], bs => bs.isEmpty
  | (name, t) :: as, bs =>
    match without (fun b => name = b.1 && t.alike b.2) bs with
    | some bs => alikeAttributes as bs
    | none    => false

def alikeBody : List (Tree ι) → List (Tree ι) → Bool
  | [], us => us.isEmpty
  | _ :: _, [] => false
  | t :: ts, u :: us => t.alike u && alikeBody ts us

end

@[simp]
theorem alike_refl (t : Tree ι) : t.alike t := by
  induction t with
  | var => simp [alike]
  | element site tag attributes body ihA ihB =>
    simp only [alike, decide_true, Bool.true_and, Bool.and_eq_true]
    exact ⟨attributes_refl ihA, body_refl ihB⟩
  | loop site binder collection body ihC ihB =>
    simp only [alike, decide_true, Bool.true_and, Bool.and_eq_true]
    exact ⟨ihC, body_refl ihB⟩
where
  attributes_refl : {as : List (String × Tree ι)} → (∀ a ∈ as, a.2.alike a.2) →
      alikeAttributes as as
    | [], _ => rfl
    | a :: as, h => by
      have ⟨ha, has⟩ := List.forall_mem_cons.mp h
      simp [alikeAttributes, without, ha, attributes_refl has]
  body_refl : {ts : List (Tree ι)} → (∀ t ∈ ts, t.alike t) → alikeBody ts ts
    | [], _ => rfl
    | t :: ts, h => by
      have ⟨ht, hts⟩ := List.forall_mem_cons.mp h
      simp [alikeBody, ht, body_refl hts]

end MarkupTemplate.Tree
