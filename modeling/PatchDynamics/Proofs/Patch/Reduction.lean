import PatchDynamics.Proofs.Patch.Course
import PatchDynamics.Proofs.Patch.Publication

/-!
# Forces are added up exactly

Computes deposit in any order, and floating-point sums depend on the order. This file shows that the
sums of a step do not depend on the order of the deposits, because they are taken in the order of
registration, and says what they are, with the addition of vectors left as it is:

* `ForceSums.columnwise` — the sums of a step atom by atom, each one a sum from left to right;
* `ForceSums.addAll_zeros` — adding deposit after deposit, all atoms at once, leads to them;
* `Patch.Begun.after_deposits` — a step with its deposits in any order, deposit by deposit;
* `Patch.reduction_exact` — what the integrator hears and what the patch keeps.
-/

namespace PatchDynamics

/-- The sum of vectors from left to right, starting from zero. -/
def Vec3.sum (vectors : List Vec3) : Vec3 := vectors.foldl (· + ·) Vec3.zero

/-! ## Sums atom by atom -/

namespace ForceSums

/-- What the deposits into a channel hold for the atom at an index, in the order of the deposits. -/
def column (deposits : List ForceDeposit) (channel : Channel) (i : Nat) : List Vec3 :=
  (deposits.filter (·.channel = channel)).filterMap fun d => d.forces[i]?

/-- The sums of a step for some deposits in order, atom by atom. -/
def columnwise (step atoms : Nat) (deposits : List ForceDeposit) : ForceSums :=
  let sums (channel : Channel) : List Vec3 :=
    (List.range atoms).map fun i => Vec3.sum (column deposits channel i)
  ⟨step, sums .normal, sums .nonbonded, sums .slow⟩

theorem channel_columnwise (step atoms : Nat) (deposits : List ForceDeposit) (channel : Channel) :
    (columnwise step atoms deposits).channel channel =
      (List.range atoms).map fun i => Vec3.sum (column deposits channel i) := by
  cases channel <;> rfl

/-- Sums are known by their step and their channels. -/
theorem eq_of_channel {s t : ForceSums} (hstep : s.step = t.step)
    (hchannel : ∀ channel, s.channel channel = t.channel channel) : s = t := by
  obtain ⟨_, _, _, _⟩ := s
  obtain ⟨_, _, _, _⟩ := t
  rw [mk.injEq]
  exact ⟨hstep, hchannel .normal, hchannel .nonbonded, hchannel .slow⟩

/-- The first deposit is in the column of its own channel only. -/
theorem column_cons (d : ForceDeposit) (deposits : List ForceDeposit) (channel : Channel)
    (i : Nat) :
    column (d :: deposits) channel i =
      (if d.channel = channel then d.forces[i]?.toList else []) ++ column deposits channel i := by
  unfold column
  by_cases h : d.channel = channel
  · rw [List.filter_cons_of_pos (by simpa using h), if_pos h, List.filterMap_cons]
    cases d.forces[i]? <;> rfl
  · rw [List.filter_cons_of_neg (by simpa using h), if_neg h, List.nil_append]

/-- One entry after a list is added. -/
theorem getElem?_accumulate (sums forces : List Vec3) (i : Nat) :
    (accumulate sums forces)[i]? =
      sums[i]?.map fun sum => forces[i]?.toList.foldl (· + ·) sum := by
  induction sums generalizing forces i with
  | nil => simp [accumulate]
  | cons sum sums ih =>
    cases forces with
    | nil => simp [accumulate]
    | cons force forces =>
      cases i with
      | zero => rfl
      | succ i => exact ih forces i

/-- **One entry after some deposits**: what they hold for the atom is added to it, in order. -/
theorem getElem?_channel_addAll (s : ForceSums) (deposits : List ForceDeposit) (channel : Channel)
    (i : Nat) :
    ((s.addAll deposits).channel channel)[i]? =
      ((s.channel channel)[i]?).map fun sum => (column deposits channel i).foldl (· + ·) sum := by
  induction deposits generalizing s with
  | nil => exact Option.map_id'.symm
  | cons d deposits ih =>
    rw [addAll_cons, ih, channel_add, column_cons]
    split
    · rw [getElem?_accumulate, Option.map_map]
      exact congrArg (Option.map · _) (funext fun sum => List.foldl_append.symm)
    · rfl

/-- **Deposits added one after the other** lead to the sums atom by atom. -/
theorem addAll_zeros (step atoms : Nat) (deposits : List ForceDeposit) :
    (zeros step atoms).addAll deposits = columnwise step atoms deposits := by
  refine eq_of_channel (Patch.step_addAll _ _) fun channel => List.ext_getElem? fun i => ?_
  rw [getElem?_channel_addAll, channel_zeros, channel_columnwise]
  rw [List.getElem?_replicate, List.getElem?_map]
  by_cases hi : i < atoms
  · rw [if_pos hi, List.getElem?_range hi]
    rfl
  · rw [if_neg hi, List.getElem?_eq_none (by rw [List.length_range]; omega)]
    rfl

/-- The totals are sums of the three channels atom by atom. -/
theorem total_columnwise (step atoms : Nat) (deposits : List ForceDeposit) :
    (columnwise step atoms deposits).total = (List.range atoms).map fun i =>
      Vec3.zero + Vec3.sum (column deposits .normal i) + Vec3.sum (column deposits .nonbonded i) +
        Vec3.sum (column deposits .slow i) := by
  dsimp only [total, columnwise]
  rw [List.zipWith_map, List.zipWith_self, List.zipWith_map, List.zipWith_self]

end ForceSums

/-! ## Deposits in any order -/

namespace Patch

/-- The deposits through some handles in order, where it is known what each compute deposits. -/
def depositing (forces : ComputeId → ForceDeposit) (order : List Handle) : List Call :=
  order.map fun h => .deposit h (forces h.task)

/-- What is held once some handles have deposited. -/
def deposited (forces : ComputeId → ForceDeposit) (order : List Handle) :
    List (Handle × ForceDeposit) :=
  order.map fun h => (h, forces h.task)

section Deposits

variable {p : Patch} {forces : ComputeId → ForceDeposit} {order early late : List Handle}

theorem map_fst_deposited (forces : ComputeId → ForceDeposit) (order : List Handle) :
    (deposited forces order).map Prod.fst = order := by
  rw [deposited, List.map_map]
  exact List.map_id order

theorem length_deposited (forces : ComputeId → ForceDeposit) (order : List Handle) :
    (deposited forces order).length = order.length := List.length_map _

/-- What a handle has deposited does not depend on the order. -/
theorem lookup_deposited {h : Handle} (hh : h ∈ order) :
    (deposited forces order).lookup h = some (forces h.task) := by
  induction order with
  | nil => cases hh
  | cons g order ih =>
    rw [deposited, List.map_cons, List.lookup_cons, ← deposited]
    by_cases heq : h = g
    · rw [heq, beq_self_eq_true]
    · rw [beq_eq_false_iff_ne.mpr heq]
      exact ih ((List.mem_cons.mp hh).resolve_left heq)

/-- **Once every handle has deposited**, the deposits are summed in the order of registration. -/
theorem inOrder_deposited (hall : ∀ h ∈ p.forceBox.handles, h ∈ order) :
    p.inOrder (deposited forces order) = p.forceBox.tasks.map forces := by
  have hlisting : Box.listing p.forceBox.handles (deposited forces order) =
      p.forceBox.handles.map fun h => (h.task, forces h.task) := by
    rw [Box.listing, ← List.filterMap_eq_map]
    exact List.filterMap_congr fun h hh => by rw [lookup_deposited (hall h hh)]; rfl
  rw [inOrder, hlisting, ← Box.map_task_handles, List.map_map, List.map_map]
  rfl

/-- One handle of those that the patch awaits, with those before and those after it. -/
theorem length_of_split {h : Handle} (hperm : (early ++ h :: late).Perm p.forceBox.handles) :
    early.length + (late.length + 1) = p.forceBox.expected := by
  rw [← List.length_cons, ← List.length_append, hperm.length_eq, Box.length_handles]

namespace Begun

/-- **One deposit** of those that the step awaits. -/
theorem deposit_next (hp : p.Begun) {h : Handle}
    (hperm : (early ++ h :: late).Perm p.forceBox.handles)
    (fits : ∀ h ∈ p.forceBox.handles, (forces h.task).forces.length = p.size) :
    (p.during 0 (deposited forces early)).deposit h (forces h.task) =
      ⟨.ok (),
        if early.length + 1 = p.forceBox.expected then
          announcement p.id (p.sums.addAll (p.inOrder (deposited forces (early ++ [h]))))
        else [],
        p.during 0 (deposited forces (early ++ [h]))⟩ := by
  have hmem : h ∈ p.forceBox.handles := hperm.mem_iff.mp (by simp)
  have hlength := length_of_split hperm
  have hnodup : (early ++ h :: late).Nodup :=
    hperm.nodup_iff.mpr (Box.nodup_handles hp.orderly.forces.nodup)
  have hnew : h ∉ (deposited forces early).map Prod.fst := by
    rw [map_fst_deposited]
    exact fun hin => List.disjoint_of_nodup_append hnodup hin List.mem_cons_self
  have hconcat : deposited forces (early ++ [h]) =
      deposited forces early ++ [(h, forces h.task)] := List.map_append
  have hmore : (deposited forces early).length < p.forceBox.expected := by
    rw [length_deposited]
    omega
  have hall : (deposited forces early).length + 1 = p.forceBox.expected →
      ∀ g ∈ p.forceBox.handles,
        g ∈ (deposited forces early ++ [(h, forces h.task)]).map Prod.fst := by
    intro hlast g hg
    -- with no handle left, all of them are in
    rw [length_deposited] at hlast
    obtain rfl : late = [] := List.length_eq_zero_iff.mp (by omega)
    rw [← hconcat, map_fst_deposited]
    exact hperm.mem_iff.mpr hg
  have hreply : (p.during 0 (deposited forces early)).deposit h (forces h.task) = _ :=
    hp.deposit_during hmem hnew (fits h hmem) hmore hall
  rw [length_deposited, ← hconcat] at hreply
  exact hreply

/-- **Some of the deposits**, one after the other: nothing is heard of them before the last one. -/
theorem after_deposits (hp : p.Begun) (hperm : (early ++ late).Perm p.forceBox.handles)
    (fits : ∀ h ∈ p.forceBox.handles, (forces h.task).forces.length = p.size) :
    p.after (depositing forces early) = p.during 0 (deposited forces early) ∧
      p.heard (depositing forces early) =
        if early.length = p.forceBox.expected then
          announcement p.id (p.sums.addAll (p.inOrder (deposited forces early)))
        else [] := by
  induction early using List.reverseRecOn generalizing late with
  | nil =>
    refine ⟨?_, (if_neg hp.awaits.symm).symm⟩
    have hmore : (deposited forces []).length < p.forceBox.expected := Nat.pos_of_ne_zero hp.awaits
    rw [during_of_lt hmore, deposited, List.map_nil, midStep, Box.holding_nil, ← hp.unread]
    rfl
  | append_singleton early h ih =>
    rw [List.append_assoc, List.singleton_append] at hperm
    obtain ⟨hafter, hheard⟩ := ih hperm
    have hreply := hp.deposit_next hperm fits
    have hlength : early.length ≠ p.forceBox.expected := by
      have := length_of_split hperm
      omega
    have hconcat : depositing forces (early ++ [h]) =
        depositing forces early ++ [.deposit h (forces h.task)] := List.map_append
    rw [hconcat, after_concat, heard_concat, hafter, hheard, if_neg hlength, List.nil_append,
      List.length_append, List.length_singleton, perform, hreply]
    exact ⟨rfl, rfl⟩

/-- **All of the deposits**: they are added up in the order of registration. -/
theorem after_all (hp : p.Begun) (hperm : order.Perm p.forceBox.handles)
    (fits : ∀ h ∈ p.forceBox.handles, (forces h.task).forces.length = p.size) :
    (p.after (depositing forces order)).sums = p.sums.addAll (p.forceBox.tasks.map forces) ∧
      p.heard (depositing forces order) =
        announcement p.id (p.sums.addAll (p.forceBox.tasks.map forces)) := by
  have hlength : order.length = p.forceBox.expected :=
    hperm.length_eq.trans p.forceBox.length_handles
  have hended : ¬ (deposited forces order).length < p.forceBox.expected := by
    rw [length_deposited, hlength]
    exact Nat.lt_irrefl _
  have horder : p.inOrder (deposited forces order) = p.forceBox.tasks.map forces :=
    inOrder_deposited fun h => hperm.mem_iff.mpr
  obtain ⟨hafter, hheard⟩ := hp.after_deposits ((List.append_nil order).symm ▸ hperm) fits
  rw [if_pos hlength, horder] at hheard
  rw [hafter, during_of_not_lt hended, ← horder]
  exact ⟨rfl, horder.symm ▸ hheard⟩

end Begun

end Deposits

/-! ## A step -/

/-- What a step comes to in which computes deposit these forces through their handles in this order:
no deposit is refused, nothing is heard before the last one, and these are the sums. -/
structure AddsUp (p : Patch) (tag : UInt32) (forces : ComputeId → ForceDeposit)
    (order : List Handle) (sums : ForceSums) : Prop where
  /-- the integrator hears nothing before the last deposit -/
  quiet : ∀ early h late, order = early ++ h :: late →
    p.heard (.positionsReady tag :: depositing forces early) = []
  /-- every deposit is accepted -/
  accepted : ∀ early h late, order = early ++ h :: late →
    ((p.after (.positionsReady tag :: depositing forces early)).deposit h
      (forces h.task)).outcome = .ok ()
  /-- the integrator hears of the sums, and that all boxes are closed -/
  heard : p.heard (.positionsReady tag :: depositing forces order) =
    [.forcesReady p.id sums.step sums, .boxesClosed p.id]
  /-- the patch keeps the sums -/
  sums : (p.after (.positionsReady tag :: depositing forces order)).sums = sums

section Steps

variable {p : Patch} {forces : ComputeId → ForceDeposit} {order : List Handle}

/-- A step with somebody to deposit. -/
theorem addsUp_of_attended (h : p.Stands .idle) (ho : p.Orderly) (tag : UInt32)
    (hsome : p.forceBox.expected ≠ 0)
    (fits : ∀ h ∈ p.forceBox.handles, (forces h.task).forces.length = p.size)
    (hperm : order.Perm p.forceBox.handles) :
    p.AddsUp tag forces order
      ((ForceSums.zeros (p.step + 1) p.size).addAll (p.forceBox.tasks.map forces)) := by
  have hbegun := begun_of_stands h ho hsome tag
  have hready : p.perform (.positionsReady tag) = ([], p.begun tag) := by
    rw [perform, positionsReady_of_attended h tag hsome]
    rfl
  have hafter : ∀ calls, p.after (.positionsReady tag :: calls) = (p.begun tag).after calls :=
    fun calls => by rw [after, List.foldl_cons, hready]; rfl
  have hheard : ∀ calls, p.heard (.positionsReady tag :: calls) = (p.begun tag).heard calls :=
    fun calls => by rw [heard, hready, List.nil_append]
  obtain ⟨hsums, hannounced⟩ := hbegun.after_all hperm fits
  refine ⟨fun early g late hsplit => ?_, fun early g late hsplit => ?_, ?_, ?_⟩
  · obtain ⟨-, hquiet⟩ := hbegun.after_deposits (hsplit ▸ hperm) fits
    have hlength : early.length + (late.length + 1) = p.forceBox.expected :=
      length_of_split (hsplit ▸ hperm)
    rw [hheard, hquiet]
    refine if_neg ?_
    change _ ≠ p.forceBox.expected
    omega
  · obtain ⟨hearly, -⟩ := hbegun.after_deposits (hsplit ▸ hperm) fits
    rw [hafter, hearly, hbegun.deposit_next (hsplit ▸ hperm) fits]
  · rw [hheard, hannounced]
    rfl
  · rw [hafter, hsums]
    rfl

/-- A step with nobody to deposit. -/
theorem addsUp_of_unattended (h : p.Stands .idle) (tag : UInt32) (hnone : p.forceBox.expected = 0) :
    p.AddsUp tag forces [] (ForceSums.zeros (p.step + 1) p.size) := by
  have hready := positionsReady_of_unattended h tag hnone
  have hcycle : p.forceBox.cycle = p.step := congrArg Box.Standing.cycle h.force
  refine ⟨fun early g late hsplit => ?_, fun early g late hsplit => ?_, ?_, ?_⟩
  · cases early <;> cases hsplit
  · cases early <;> cases hsplit
  · rw [heard, perform, hready, hcycle]
    rfl
  · rw [after, List.foldl_cons, perform, hready]
    rfl

end Steps

/-- **Forces are added up exactly.** Take a patch that some run of calls has led to, with no box
open, and suppose that it is known what each registered compute is going to deposit, one vector for
each atom. Then there are sums that every order of the deposits leads to. In each channel and for
each atom they are the sum from zero of what the computes deposit into that channel for that atom,
in the order of registration; in total they are the sum from zero of the three channels. By whatever
order, no deposit is refused, the integrator hears nothing before the last one, then of these sums
and that all boxes are closed, and the patch keeps these sums. -/
theorem reduction_exact {id : PatchId} {serial : Nat} {averaged : Bool} {past : List Call}
    {p : Patch} (made : p = (new id serial averaged).after past) (idle : p.openBoxes = 0)
    (tag : UInt32) {forces : ComputeId → ForceDeposit}
    (fits : ∀ task ∈ p.forceBox.tasks, (forces task).forces.length = p.size) :
    let entry := fun channel i =>
      Vec3.sum (ForceSums.column (p.forceBox.tasks.map forces) channel i)
    ∃ sums : ForceSums, sums.step = p.step + 1 ∧
      (∀ channel, sums.channel channel = (List.range p.size).map (entry channel)) ∧
      (sums.total = (List.range p.size).map fun i =>
        Vec3.zero + entry .normal i + entry .nonbonded i + entry .slow i) ∧
      (p.positionsReady tag).outcome = .ok () ∧
      ∀ order : List Handle, order.Perm p.forceBox.handles → p.AddsUp tag forces order sums := by
  intro entry
  obtain ⟨phase, hstands, horderly, -, -⟩ := shown_new id serial averaged past
  rw [← made] at hstands horderly
  obtain rfl : phase = .idle := hstands.phase_eq.trans (if_pos idle)
  have hfits : ∀ h ∈ p.forceBox.handles, (forces h.task).forces.length = p.size := fun h hh =>
    fits h.task (p.forceBox.map_task_handles ▸ List.mem_map_of_mem hh)
  refine ⟨ForceSums.columnwise (p.step + 1) p.size (p.forceBox.tasks.map forces), rfl,
    ForceSums.channel_columnwise _ _ _, ForceSums.total_columnwise _ _ _, ?_, fun order hperm => ?_⟩
  · by_cases hnone : p.forceBox.expected = 0
    · rw [positionsReady_of_unattended hstands tag hnone]
    · rw [positionsReady_of_attended hstands tag hnone]
  · rw [← ForceSums.addAll_zeros]
    by_cases hnone : p.forceBox.expected = 0
    -- nobody is registered, so there is no deposit to add
    · have hnil : p.forceBox.registrations = [] := List.eq_nil_of_length_eq_zero hnone
      rw [Box.handles, hnil] at hperm
      rw [Box.tasks, hnil, hperm.eq_nil]
      exact addsUp_of_unattended hstands tag hnone
    · exact addsUp_of_attended hstands horderly tag hnone hfits hperm

/-- Three computes deposit on two atoms, by two orders other than that of registration. -/
theorem reduction_exact_three :
    let past : List Call := [.editAtoms fun _ => [⟨0, Vec3.zero⟩, ⟨1, Vec3.zero⟩],
      .register .force ⟨10⟩, .register .force ⟨11⟩, .register .force ⟨12⟩]
    let p := (new ⟨0⟩ 0 false).after past
    let forces : ComputeId → ForceDeposit := fun task =>
      if task = ⟨12⟩ then ⟨.nonbonded, [⟨4, 0, 0⟩, ⟨4, 0, 0⟩]⟩
      else if task = ⟨11⟩ then ⟨.normal, [⟨2, 0, 0⟩, ⟨2, 0, 0⟩]⟩
      else ⟨.normal, [⟨1, 0, 0⟩, ⟨1, 0, 0⟩]⟩
    p.openBoxes = 0 ∧ (∀ task ∈ p.forceBox.tasks, (forces task).forces.length = p.size) ∧
    ∃ sums : ForceSums,
      sums.normal = List.replicate 2 (Vec3.zero + ⟨1, 0, 0⟩ + ⟨2, 0, 0⟩) ∧
      sums.nonbonded = List.replicate 2 (Vec3.zero + ⟨4, 0, 0⟩) ∧
      sums.slow = List.replicate 2 Vec3.zero ∧
      p.AddsUp 0 forces [⟨2, ⟨11⟩, 2⟩, ⟨2, ⟨12⟩, 3⟩, ⟨2, ⟨10⟩, 1⟩] sums ∧
      p.AddsUp 0 forces [⟨2, ⟨12⟩, 3⟩, ⟨2, ⟨11⟩, 2⟩, ⟨2, ⟨10⟩, 1⟩] sums := by
  intro past p forces
  have htasks : p.forceBox.tasks = [⟨10⟩, ⟨11⟩, ⟨12⟩] := by decide
  have idle : p.openBoxes = 0 := rfl
  have fits : ∀ task ∈ p.forceBox.tasks, (forces task).forces.length = p.size := by
    rw [htasks]
    decide
  obtain ⟨sums, -, hchannel, -, -, horders⟩ :=
    reduction_exact (rfl : p = (new ⟨0⟩ 0 false).after past) idle 0 fits
  rw [htasks] at hchannel
  exact ⟨idle, fits, sums, hchannel .normal, hchannel .nonbonded, hchannel .slow,
    horders _ (by decide), horders _ (by decide)⟩

end Patch

end PatchDynamics
