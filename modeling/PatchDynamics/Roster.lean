import PatchDynamics.Identifier
import PatchDynamics.IndexSet

/-!
# Rosters

The computes registered for something, each once, in the order of registration. The order decides in
which order deposited forces are summed, so removal keeps the order of the rest and a compute that
comes back goes to the end. Two rosters count as equal when they have the same members.

A roster is a set in the order of insertion under another name. What is said of it here holds for
every set that does what is relied on. The rosters of a patch rest on lists, and any other such set
would do as well.
-/

namespace PatchDynamics

/-- Compute numbers without repetition, in the order of registration, in a set of type `σ`. -/
structure Roster (σ : Type) where
  /-- the set of the members -/
  ids : σ
  deriving Inhabited, Repr

namespace Roster

variable {σ : Type} [IndexSet σ ComputeId]

/-- The roster without members. -/
def empty : Roster σ := ⟨IndexSet.empty⟩

/-- Whether `id` is a member. -/
def contains (r : Roster σ) (id : ComputeId) : Bool := IndexSet.contains r.ids id

/-- The number of members. -/
def size (r : Roster σ) : Nat := IndexSet.size r.ids

/-- Whether there is no member. -/
def isEmpty (r : Roster σ) : Bool := IndexSet.isEmpty r.ids

/-- The members, first registered first. -/
def members (r : Roster σ) : List ComputeId := IndexSet.elements r.ids

/-- `id` at the end, unless it is a member already; and whether it was new. -/
def insert (r : Roster σ) (id : ComputeId) : Bool × Roster σ :=
  let (inserted, ids) := IndexSet.insert r.ids id
  (inserted, ⟨ids⟩)

/-- The roster without `id`, the rest in the same order; and whether `id` was a member. -/
def remove (r : Roster σ) (id : ComputeId) : Bool × Roster σ :=
  let (removed, ids) := IndexSet.shiftRemove r.ids id
  (removed, ⟨ids⟩)

/-- Whether two rosters have the same members, in whatever order. -/
def sameMembers (r s : Roster σ) : Bool := IndexSet.equal r.ids s.ids

/-! ## What a call does to the members -/

section

variable (laws : IndexSet.Lawful σ) {r : Roster σ} {id x : ComputeId}

include laws

theorem members_empty : (empty : Roster σ).members = [] := laws.elements_empty

theorem contains_eq_true_iff : r.contains id = true ↔ id ∈ r.members := laws.contains_iff r.ids id

theorem insert_of_mem (h : id ∈ r.members) :
    (r.insert id).1 = false ∧ (r.insert id).2.members = r.members :=
  laws.insert_present r.ids id ((contains_eq_true_iff laws).mpr h)

theorem insert_of_not_mem (h : id ∉ r.members) :
    (r.insert id).1 = true ∧ (r.insert id).2.members = r.members ++ [id] :=
  laws.insert_absent r.ids id (Bool.eq_false_iff.mpr (mt (contains_eq_true_iff laws).mp h))

theorem answer_remove : (r.remove id).1 = true ↔ id ∈ r.members := by
  rw [← contains_eq_true_iff laws, ← Bool.eq_iff_iff]
  exact laws.shiftRemove_answer r.ids id

theorem members_remove : (r.remove id).2.members = r.members.filter (· ≠ id) :=
  laws.shiftRemove_elements r.ids id

/-- Who is not there is removed in vain. -/
theorem members_remove_of_not_mem (h : id ∉ r.members) : (r.remove id).2.members = r.members := by
  rw [members_remove laws]
  exact List.filter_eq_self.mpr fun x hx => decide_eq_true fun hsame => h (hsame ▸ hx)

theorem answer_insert : (r.insert id).1 = true ↔ id ∉ r.members := by
  by_cases h : id ∈ r.members
  · rw [(insert_of_mem laws h).1]
    exact iff_of_false Bool.false_ne_true (not_not_intro h)
  · exact iff_of_true (insert_of_not_mem laws h).1 h

/-- Inserting makes `id` a member and keeps the others. -/
theorem mem_insert : x ∈ (r.insert id).2.members ↔ x ∈ r.members ∨ x = id := by
  by_cases h : id ∈ r.members
  · rw [(insert_of_mem laws h).2]
    exact ⟨Or.inl, fun hx => hx.elim (fun hx => hx) fun hx => hx ▸ h⟩
  · rw [(insert_of_not_mem laws h).2, List.mem_append, List.mem_singleton]

/-- Removing takes `id` out and keeps the others. -/
theorem mem_remove : x ∈ (r.remove id).2.members ↔ x ∈ r.members ∧ x ≠ id := by
  rw [members_remove laws, List.mem_filter, decide_eq_true_eq]

end

/-! ## Rosters that rest on lists -/

theorem insert_on_list {r : Roster (List ComputeId)} {id : ComputeId} (h : id ∉ r.ids) :
    r.insert id = (true, ⟨r.ids ++ [id]⟩) := by
  have hinsert : IndexSet.insert r.ids id = (true, r.ids ++ [id]) :=
    if_neg (mt List.contains_iff_mem.mp h)
  rw [insert, hinsert]

end Roster

end PatchDynamics
