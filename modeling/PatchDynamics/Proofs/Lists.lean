import Mathlib.Data.List.Nodup
import Mathlib.Data.List.Perm.Basic

/-!
# Lists and actions on them

Facts that are about no patch and no grid:

* actions that may fail, one after the other and on each entry of a list;
* lists of lists, lists of entries with different keys, and lists without their repetitions.
-/

namespace PatchDynamics

/-! ## Actions -/

/-- Both parts of what succeeds do. -/
theorem exists_ok_of_bind {ε α β : Type} {m : Except ε α} {f : α → Except ε β} {b : β}
    (h : m >>= f = .ok b) : ∃ a, m = .ok a ∧ f a = .ok b := by
  cases m with
  | error e => cases h
  | ok a => exact ⟨a, rfl, h⟩

/-- An action on each entry of a list succeeds if it does on every entry. -/
theorem mapM_ok {α β ε : Type} {f : α → Except ε β} {good : α → β → Prop} {l : List α}
    (h : ∀ a ∈ l, ∃ b, f a = .ok b ∧ good a b) :
    ∃ l', l.mapM f = .ok l' ∧ l'.length = l.length ∧ ∀ b ∈ l', ∃ a ∈ l, good a b := by
  induction l with
  | nil => exact ⟨[], rfl, rfl, nofun⟩
  | cons a l ih =>
    rw [List.forall_mem_cons] at h
    obtain ⟨⟨b, hb, hgood⟩, hrest⟩ := h
    obtain ⟨l', hl', hlength, hall⟩ := ih hrest
    refine ⟨b :: l', ?_, congrArg (· + 1) hlength, ?_⟩
    · rw [List.mapM_cons, hb, hl']
      rfl
    · intro c hc
      rcases List.mem_cons.mp hc with rfl | hc
      · exact ⟨a, List.mem_cons_self, hgood⟩
      · obtain ⟨a', ha', hgood'⟩ := hall c hc
        exact ⟨a', List.mem_cons_of_mem _ ha', hgood'⟩

/-- An action that succeeds on each entry of a list succeeds on the list. -/
theorem mapM_eq_map {α β ε : Type} {f : α → Except ε β} {g : α → β} {l : List α}
    (h : ∀ a ∈ l, f a = .ok (g a)) : l.mapM f = .ok (l.map g) := by
  induction l with
  | nil => rfl
  | cons a l ih =>
    rw [List.forall_mem_cons] at h
    rw [List.mapM_cons, h.1, ih h.2]
    rfl

/-- What an action results in on each entry of a list includes what it results in on one of them. -/
theorem exists_of_mapM {α β ε : Type} {f : α → Except ε β} {l : List α} {l' : List β}
    (h : l.mapM f = .ok l') {a : α} (ha : a ∈ l) : ∃ b ∈ l', f a = .ok b := by
  induction l generalizing l' with
  | nil => exact absurd ha List.not_mem_nil
  | cons first l ih =>
    rw [List.mapM_cons] at h
    obtain ⟨b, hb, h⟩ := exists_ok_of_bind h
    obtain ⟨rest, hrest, h⟩ := exists_ok_of_bind h
    cases h
    rcases List.mem_cons.mp ha with rfl | ha
    · exact ⟨b, List.mem_cons_self, hb⟩
    · obtain ⟨c, hc, hfc⟩ := ih hrest ha
      exact ⟨c, List.mem_cons_of_mem _ hc, hfc⟩

/-! ## Lists -/

theorem length_flatten_le {α : Type} {lists : List (List α)} {n : Nat}
    (h : ∀ l ∈ lists, l.length ≤ n) : lists.flatten.length ≤ lists.length * n := by
  induction lists with
  | nil => exact Nat.zero_le _
  | cons l lists ih =>
    rw [List.forall_mem_cons] at h
    rw [List.flatten_cons, List.length_append, List.length_cons, Nat.succ_mul, Nat.add_comm]
    exact Nat.add_le_add (ih h.2) h.1

/-- An entry of a list is found by its key, where the keys are different. -/
theorem find?_of_mem {α κ : Type} [DecidableEq κ] {key : α → κ} {l : List α} {a : α} {k : κ}
    (nodup : (l.map key).Nodup) (ha : a ∈ l) (hk : key a = k) :
    l.find? (fun b => key b = k) = some a := by
  cases hfind : l.find? (fun b => key b = k) with
  | none => exact absurd (decide_eq_true hk) (List.find?_eq_none.mp hfind a ha)
  | some b =>
    have hb := List.find?_some hfind
    have hb : key b = k := of_decide_eq_true hb
    rw [List.inj_on_of_nodup_map nodup (List.mem_of_find?_eq_some hfind) ha (hb.trans hk.symm)]

/-- A list sorted into compartments has all its entries there, each once. -/
theorem flatMap_filter_perm {α κ : Type} [DecidableEq κ] {key : α → κ} {keys : List κ}
    (nodup : keys.Nodup) {l : List α} (h : ∀ a ∈ l, key a ∈ keys) :
    (keys.flatMap fun k => l.filter fun a => key a = k).Perm l := by
  induction keys generalizing l with
  | nil =>
    rw [List.eq_nil_iff_forall_not_mem.mpr fun a ha => List.not_mem_nil (h a ha)]
    exact .refl _
  | cons k keys ih =>
    rw [List.nodup_cons] at nodup
    -- the other compartments get what is left
    have hrest := ih nodup.2 (l := l.filter fun a => !decide (key a = k)) fun a ha => by
      obtain ⟨ha, hne⟩ := List.mem_filter.mp ha
      exact List.mem_of_ne_of_mem (by simpa using hne) (h a ha)
    have hsame : (keys.flatMap fun k' => l.filter fun a => key a = k') =
        keys.flatMap fun k' =>
          (l.filter fun a => !decide (key a = k)).filter fun a => key a = k' := by
      refine List.flatMap_congr fun k' hk' => ?_
      rw [List.filter_filter]
      refine List.filter_congr fun a _ => ?_
      by_cases heq : key a = k'
      · have hne : key a ≠ k := fun hk => nodup.1 (hk ▸ heq ▸ hk')
        simp [heq, heq ▸ hne]
      · simp [heq]
    rw [List.flatMap_cons, hsame]
    exact (hrest.append_left _).trans (List.filter_append_perm _ l)

/-- Numbers below the bound of 32-bit words are told apart by their words. -/
theorem nodup_map_ofNat {α : Type} {make : UInt32 → α} (hmake : ∀ v w, make v = make w → v = w)
    {n : Nat} (hn : n ≤ UInt32.size) :
    ((List.range n).map fun i => make (UInt32.ofNat i)).Nodup := by
  refine List.Nodup.map_on ?_ List.nodup_range
  intro i hi j hj hsame
  rw [List.mem_range] at hi hj
  have hword := congrArg UInt32.toNat (hmake _ _ hsame)
  rwa [UInt32.toNat_ofNat_of_lt' (Nat.lt_of_lt_of_le hi hn),
    UInt32.toNat_ofNat_of_lt' (Nat.lt_of_lt_of_le hj hn)] at hword

/-! ## Repetitions -/

theorem eraseRepsBy_loop {α : Type} (r : α → α → Bool) (a : α) (l done : List α) :
    ∃ kept, List.eraseRepsBy.loop r a l done = done.reverse ++ kept ∧ kept.Sublist (a :: l) := by
  induction l generalizing a done with
  | nil => exact ⟨[a], by simp [List.eraseRepsBy.loop], .refl _⟩
  | cons b l ih =>
    rw [List.eraseRepsBy.loop]
    split
    · obtain ⟨kept, hkept, hsub⟩ := ih a done
      exact ⟨kept, hkept, hsub.trans ((List.sublist_cons_self b l).cons_cons a)⟩
    · obtain ⟨kept, hkept, hsub⟩ := ih b (a :: done)
      exact ⟨a :: kept, by simp [hkept], hsub.cons_cons a⟩

/-- What is erased is gone, and the rest stays in order. -/
theorem eraseReps_sublist {α : Type} [BEq α] (l : List α) : l.eraseReps.Sublist l := by
  cases l with
  | nil => exact .refl _
  | cons a l =>
    obtain ⟨kept, hkept, hsub⟩ := eraseRepsBy_loop (· == ·) a l []
    rw [List.eraseReps, List.eraseRepsBy, hkept]
    exact hsub

end PatchDynamics
