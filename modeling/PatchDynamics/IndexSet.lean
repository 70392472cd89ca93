/-!
# Sets in the order of insertion

A set that iterates in the order in which its elements were inserted. Rosters rest on one, and how
it works inside is no business of theirs:

* `IndexSet` — what such a set offers;
* `IndexSet.Lawful` — what is relied on: for each operation, what it answers and what iteration
  yields afterwards. That no element is there twice is not among the laws. It follows from them, for
  a set that was new once;
* a list is such a set.
-/

namespace PatchDynamics

/-- The type `σ` is one of sets with elements of type `α`, in the order of insertion. -/
class IndexSet (σ : Type) (α : outParam Type) where
  /-- a new set -/
  empty : σ
  /-- puts an element in; whether it was absent -/
  insert : σ → α → Bool × σ
  /-- takes an element out, and shifts those that follow it; whether it was present -/
  shiftRemove : σ → α → Bool × σ
  /-- whether an element is present -/
  contains : σ → α → Bool
  /-- the number of elements -/
  size : σ → Nat
  /-- whether there is no element -/
  isEmpty : σ → Bool
  /-- what iteration yields -/
  elements : σ → List α
  /-- whether two sets count as equal -/
  equal : σ → σ → Bool

namespace IndexSet

/-- What is relied on of a set in the order of insertion, each operation by itself. -/
structure Lawful (σ : Type) {α : Type} [IndexSet σ α] [DecidableEq α] : Prop where
  /-- a new set has no elements -/
  elements_empty : elements (empty : σ) = []
  /-- an element is present if iteration yields it -/
  contains_iff : ∀ (s : σ) (a : α), contains s a = true ↔ a ∈ elements s
  /-- an element that is present is not inserted again, and the order is not altered -/
  insert_present : ∀ (s : σ) (a : α), contains s a = true →
    (insert s a).1 = false ∧ elements (insert s a).2 = elements s
  /-- an element that is absent is inserted at the end -/
  insert_absent : ∀ (s : σ) (a : α), contains s a = false →
    (insert s a).1 = true ∧ elements (insert s a).2 = elements s ++ [a]
  /-- a removal tells whether the element was present -/
  shiftRemove_answer : ∀ (s : σ) (a : α), (shiftRemove s a).1 = contains s a
  /-- a removal leaves the other elements, in their relative order -/
  shiftRemove_elements : ∀ (s : σ) (a : α),
    elements (shiftRemove s a).2 = (elements s).filter (· ≠ a)
  /-- the elements are counted as iteration yields them -/
  size_eq : ∀ s : σ, size s = (elements s).length
  /-- a set is empty if it has no element -/
  isEmpty_eq : ∀ s : σ, isEmpty s = decide (size s = 0)
  /-- sets are compared by their sizes, and then each element of the one is looked up in the
  other -/
  equal_eq : ∀ s t : σ, equal s t = (size s = size t && (elements s).all (contains t))

variable {α : Type} [DecidableEq α]

/-- A list serves as a set. -/
instance : IndexSet (List α) α where
  empty := []
  insert l a := if l.contains a then (false, l) else (true, l ++ [a])
  shiftRemove l a := (l.contains a, l.filter (· ≠ a))
  contains l a := l.contains a
  size l := l.length
  isEmpty l := l.isEmpty
  elements l := l
  equal l m := l.length = m.length && l.all m.contains

/-- Lists do what is relied on. -/
theorem lawful_list : Lawful (List α) where
  elements_empty := rfl
  contains_iff l a := List.contains_iff_mem
  insert_present l a h := by
    have hinsert : insert l a = (false, l) := if_pos h
    exact ⟨congrArg Prod.fst hinsert, congrArg Prod.snd hinsert⟩
  insert_absent l a h := by
    have hinsert : insert l a = (true, l ++ [a]) := if_neg (Bool.eq_false_iff.mp h)
    exact ⟨congrArg Prod.fst hinsert, congrArg Prod.snd hinsert⟩
  shiftRemove_answer _ _ := rfl
  shiftRemove_elements _ _ := rfl
  size_eq _ := rfl
  isEmpty_eq l := by cases l <;> rfl
  equal_eq _ _ := rfl

end IndexSet

end PatchDynamics
