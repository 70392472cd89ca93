import PatchDynamics.Proofs.Directory.Migration
import PatchDynamics.Proofs.Patch.Protocol
import PatchDynamics.Proofs.Schedule.Enrolled

/-!
# Residence

Nothing stops two patches from listing the same particle, a patch from listing one twice, or a
replacement from failing half way. The directory may then fail to find a particle that is listed,
but it never points to a place where the particle is not:

* `Assembly.Call`, `perform`, `after` — what the owners of the patches and of the directory call;
* `Residence` — the invariant: what an entry names is there. It rests on the guard of `unregister`:
  a patch that gives its list up leaves no entry behind that names it;
* `found_resident` — what it means for look-ups.
-/

namespace PatchDynamics

open Directory (slot placed)

namespace Patch

variable {p : Patch} {phase : Phase}

/-- A call that keeps the particles of the patch and their order: it does not replace the
membership, and an edit changes positions only. -/
def Call.KeepsIds : Call → Prop
  | .replaceAtoms _ _ => False
  | .editAtoms f => ∀ atoms, (f atoms).map Atom.id = atoms.map Atom.id
  | _ => True

theorem id_register (p : Patch) (kind : BoxKind) (task : ComputeId) :
    (p.register kind task).patch.id = p.id := by
  cases kind <;> (unfold register; dsimp only; split <;> rfl)

theorem ids_register (p : Patch) (kind : BoxKind) (task : ComputeId) :
    (p.register kind task).patch.ids = p.ids := by
  cases kind <;> (unfold register; dsimp only; split <;> rfl)

theorem ids_unregister (p : Patch) (kind : BoxKind) (h : Handle) :
    (p.unregister kind h).patch.ids = p.ids := by
  cases kind <;> (unfold unregister; dsimp only; split <;> rfl)

theorem ids_retrieve (p : Patch) (kind : BoxKind) (h : Handle) :
    (p.perform (.retrieve kind h)).2.ids = p.ids := by
  cases kind with
  | position => rfl
  | avgPosition => rfl
  | force =>
    rw [perform, retrieveFrame, afterForces_of_none (p.forceBox.completion_retrieve h)]
    rfl

theorem Stands.ids_positionsReady (h : p.Stands phase) (tag : UInt32) :
    (p.positionsReady tag).patch.ids = p.ids := by
  cases phase with
  | closed => exact absurd rfl h.resting
  | opened =>
    rw [positionsReady_of_busy h]
    rfl
  | idle =>
    by_cases hnone : p.forceBox.expected = 0
    · rw [positionsReady_of_unattended h tag hnone]
      rfl
    · rw [positionsReady_of_attended h tag hnone]
      rfl

theorem Stands.ids_deposit (h : p.Stands phase) (handle : Handle) (d : ForceDeposit) :
    (p.deposit handle d).patch.ids = p.ids := by
  rcases p.forceBox.deposit_standing (fitsFrame p.id) handle d with
    ⟨hc, -⟩ | ⟨c, hc, -, -, hphase, -⟩
  · rw [Patch.deposit, afterForces_of_none hc]
    rfl
  · obtain rfl : phase = .opened := h.force_phase.symm.trans hphase
    rw [Patch.deposit, afterForces_of_completion h.reading hc]
    rfl

theorem ids_editAtoms {f : List Atom → List Atom}
    (hf : ∀ atoms, (f atoms).map Atom.id = atoms.map Atom.id) :
    (p.editAtoms f).patch.ids = p.ids := by
  unfold editAtoms
  split
  · rfl
  · exact hf p.atoms

theorem ids_setAverages (averages : List Atom) : (p.setAverages averages).patch.ids = p.ids := by
  unfold setAverages
  split <;> rfl

/-- The calls that keep the particles of a patch do. -/
theorem Stands.ids_perform (h : p.Stands phase) {c : Call} (hc : c.KeepsIds) :
    (p.perform c).2.ids = p.ids := by
  cases c with
  | register kind task => exact p.ids_register kind task
  | unregister kind handle => exact p.ids_unregister kind handle
  | positionsReady tag => exact h.ids_positionsReady tag
  | retrieve kind handle => exact p.ids_retrieve kind handle
  | deposit handle d => exact h.ids_deposit handle d
  | depositIntoPositions handle => rfl
  | depositIntoAverages handle => rfl
  | replaceAtoms d atoms => exact hc.elim
  | editAtoms f => exact ids_editAtoms hc
  | setAverages averages => exact ids_setAverages averages
  | setFixedAtoms count => rfl

/-- After a call the patch stands somewhere, under the same number. -/
theorem Stands.exists_perform (h : p.Stands phase) (c : Call) :
    (∃ phase', (p.perform c).2.Stands phase') ∧ (p.perform c).2.id = p.id := by
  have hadvance := h.perform c
  generalize p.perform c = seen at hadvance
  cases hadvance with
  | stays settled stands _ => exact ⟨⟨_, stands⟩, settled.1⟩
  | begins settled stands _ => exact ⟨⟨_, stands⟩, settled.1⟩
  | ends settled stands _ => exact ⟨⟨_, stands⟩, settled.1⟩
  | passes settled stands _ => exact ⟨⟨_, stands⟩, settled.1⟩

end Patch

namespace Assembly

/-! ## Calls -/

/-- One call on an assembly. -/
inductive Call where
  /-- replaces the membership of a patch -/
  | replaceAtoms (patch : PatchId) (atoms : List Atom)
  /-- calls a patch, or one of its boxes -/
  | onPatch (patch : PatchId) (c : Patch.Call)
  /-- clears the directory -/
  | clear

/-- The assembly after a call. A call on a patch that is not there does nothing. -/
def perform (s : Assembly) : Call → Assembly
  | .replaceAtoms patch atoms => ((s.replaceAtoms patch atoms).map Prod.snd).getD s
  | .onPatch patch c =>
    ((s.call patch fun p => ⟨.ok (), (p.perform c).1, (p.perform c).2⟩).map Prod.snd).getD s
  | .clear => { s with directory := s.directory.clear }

/-- The assembly after some calls. -/
def after (s : Assembly) (calls : List Call) : Assembly := calls.foldl perform s

/-- The calls that go through the assembly: lists are not longer than indices reach, and the
directory is changed by replacements and by clearing it only. -/
def Call.Direct : Call → Prop
  | .replaceAtoms _ atoms => atoms.length < UInt32.size
  | .onPatch _ c => c.KeepsIds
  | .clear => True

end Assembly

/-! ## The invariant -/

/-- What holds between calls: what an entry names is there. -/
structure Residence (d : Directory) (l : List Patch) : Prop where
  /-- the patches have different numbers -/
  distinct : (l.map Patch.id).Nodup
  /-- each patch is at rest or in a step -/
  standing : ∀ p ∈ l, ∃ phase, p.Stands phase
  /-- an entry names a patch, and an index at which the patch lists the particle -/
  resident : ∀ n loc, slot d.table n = some loc →
    ∃ p ∈ l, p.id = loc.patch ∧ (p.ids[loc.index.toNat]?).map UInt32.toNat = some n

namespace Residence

variable {d d' : Directory} {l : List Patch} {p new : Patch} {n : Nat} {loc : Location}

/-- What an entry names is in the patch of that number. -/
theorem listed (h : Residence d l) (hp : p ∈ l) (hslot : slot d.table n = some loc)
    (hpatch : loc.patch = p.id) : (p.ids[loc.index.toNat]?).map UInt32.toNat = some n := by
  obtain ⟨q, hq, hid, hindex⟩ := h.resident n loc hslot
  obtain rfl := List.inj_on_of_nodup_map h.distinct hq hp (hid.trans hpatch)
  exact hindex

/-- One of the patches and the directory change, such that an entry is from before and does not name
the patch, or names it and is right. -/
theorem put (h : Residence d l) (hp : p ∈ l) (hid : new.id = p.id)
    (hstands : ∃ phase, new.Stands phase)
    (hslots : ∀ n loc, slot d'.table n = some loc →
      loc.patch ≠ p.id ∧ slot d.table n = some loc ∨
      loc.patch = p.id ∧ (new.ids[loc.index.toNat]?).map UInt32.toNat = some n) :
    Residence d' (Assembly.putPatch l (fun q => q) p new) where
  distinct := by
    rw [Assembly.map_id_putPatch hid]
    exact h.distinct
  standing := by
    intro q hq
    rcases Assembly.mem_putPatch hq with rfl | ⟨hq, -⟩
    · exact hstands
    · exact h.standing q hq
  resident := by
    intro n loc hslot
    rcases hslots n loc hslot with ⟨hother, hold⟩ | ⟨hsame, hindex⟩
    · obtain ⟨q, hq, hqid, hindex⟩ := h.resident n loc hold
      have hne : q.id ≠ p.id := fun heq => hother (hqid.symm.trans heq)
      exact ⟨q, List.mem_map.mpr ⟨q, hq, if_neg hne⟩, hqid, hindex⟩
    · exact ⟨new, Assembly.new_mem_putPatch hp, hid.trans hsame.symm, hindex⟩

/-- A patch changes that keeps its list, and the directory loses at most entries. -/
theorem keep (h : Residence d l) (hp : p ∈ l) (hid : new.id = p.id)
    (hstands : ∃ phase, new.Stands phase) (hids : new.ids = p.ids)
    (hslots : ∀ n loc, slot d'.table n = some loc → slot d.table n = some loc) :
    Residence d' (Assembly.putPatch l (fun q => q) p new) := by
  refine h.put hp hid hstands fun n loc hslot => ?_
  have hold := hslots n loc hslot
  by_cases hpatch : loc.patch = p.id
  · exact .inr ⟨hpatch, hids ▸ h.listed hp hold hpatch⟩
  · exact .inl ⟨hpatch, hold⟩

theorem slot_of_released {patch : PatchId} {ids : List ParticleId}
    (hslot : slot (d.released patch ids).table n = some loc) : slot d.table n = some loc := by
  rw [Directory.slot_released] at hslot
  split at hslot
  · exact Option.eq_some_of_filter_eq_some hslot
  · exact hslot

/-- **A replacement keeps the invariant**, whether or not it succeeds. -/
theorem replaceAtoms (h : Residence d l) (hp : p ∈ l) {atoms : List Atom}
    (hlength : atoms.length < UInt32.size) :
    Residence (p.replaceAtoms d atoms).2.1
      (Assembly.putPatch l (fun q => q) p (p.replaceAtoms d atoms).2.2) := by
  have hstands := h.standing p hp
  have hall := Patch.replacement d p atoms
  generalize p.replaceAtoms d atoms = result at hall
  cases hall with
  | busy => exact h.keep hp rfl hstands rfl fun _ _ hslot => hslot
  | stray => exact h.keep hp rfl hstands rfl fun _ _ hslot => hslot
  | misfit => exact h.keep hp rfl hstands rfl fun _ _ hslot => slot_of_released hslot
  | reserved => exact h.keep hp rfl hstands rfl fun _ _ hslot => slot_of_released hslot
  | replaced closed known fits unreserved =>
    obtain ⟨phase, hphase⟩ := hstands
    have hnew : (p.replaced atoms).Stands phase :=
      hphase.same ⟨rfl, rfl⟩ rfl rfl rfl rfl rfl rfl
    refine h.put hp rfl ⟨phase, hnew⟩ fun n loc hslot => ?_
    rw [Directory.slot_exchanged fits, Option.or_eq_some_iff] at hslot
    rcases hslot with hplaced | ⟨-, hold⟩
    · -- the entry is new
      refine .inr ⟨(Directory.placed_eq_some hplaced).1, ?_⟩
      obtain ⟨-, -, id, -, rfl, -⟩ := Directory.placed_eq_some hplaced
      have hindex := Directory.getElem?_of_placed (by simpa using hlength.le) hplaced
      exact Option.map_eq_some_iff.mpr ⟨id, hindex, rfl⟩
    · -- the entry is from before; had it named the patch, it would have been given up
      left
      split at hold
      · obtain ⟨hold, hother⟩ := Option.filter_eq_some_iff.mp hold
        exact ⟨of_decide_eq_true hother, hold⟩
      · next hgone =>
        refine ⟨fun hpatch => hgone ?_, hold⟩
        obtain ⟨id, hindex, hid⟩ := Option.map_eq_some_iff.mp (h.listed hp hold hpatch)
        exact hid ▸ List.mem_map_of_mem (List.mem_of_getElem? hindex)

end Residence

namespace Assembly

variable {s : Assembly}

/-- **A call keeps the invariant.** -/
theorem residence_perform (h : Residence s.directory s.patches) {c : Call} (hc : c.Direct) :
    Residence (s.perform c).directory (s.perform c).patches := by
  have hpatches : s.patches = s.patches.map fun q => q := (List.map_id' _).symm
  cases c with
  | replaceAtoms patch atoms =>
    by_cases hmem : patch ∈ s.patches.map Patch.id
    · obtain ⟨p, hp, rfl⟩ := List.mem_map.mp hmem
      have hcall := replaceAtoms_eq hpatches (fun _ _ => rfl) h.distinct hp
        (rfl : p.replaceAtoms s.directory atoms = _)
      rw [perform, hcall]
      exact h.replaceAtoms hp hc
    · have hnone : s.replaceAtoms patch atoms = none := by
        rw [replaceAtoms, changeFirst_of_not_mem hmem]
        rfl
      rw [perform, hnone]
      exact h
  | onPatch patch c =>
    by_cases hmem : patch ∈ s.patches.map Patch.id
    · obtain ⟨p, hp, rfl⟩ := List.mem_map.mp hmem
      obtain ⟨phase, hphase⟩ := h.standing p hp
      obtain ⟨hstands, hid⟩ := hphase.exists_perform c
      rw [perform, call_eq hpatches (fun _ _ => rfl) h.distinct hp]
      exact h.keep hp hid hstands (hphase.ids_perform hc) fun _ _ hslot => hslot
    · have hnone : (s.call patch fun p =>
          (⟨.ok (), (p.perform c).1, (p.perform c).2⟩ : Patch.Reply Unit)) = none := by
        rw [call, changeFirst_of_not_mem hmem]
        rfl
      rw [perform, hnone]
      exact h
  | clear =>
    refine ⟨h.distinct, h.standing, fun n loc hslot => ?_⟩
    rw [perform, Directory.clear, Directory.slot_replicate_none] at hslot
    cases hslot

/-- A run of calls keeps the invariant. -/
theorem residence_after (h : Residence s.directory s.patches) {calls : List Call}
    (hcalls : ∀ c ∈ calls, c.Direct) :
    Residence (s.after calls).directory (s.after calls).patches := by
  induction calls generalizing s with
  | nil => exact h
  | cons c calls ih =>
    rw [List.forall_mem_cons] at hcalls
    exact ih (residence_perform h hcalls.1) hcalls.2

/-- **Who is found is there.** Take new patches with different numbers and a new directory, and any
run of calls: replacements by any lists, whether they overlap, repeat particles, do not fit or are
refused, calls on patches and boxes, edits of positions, and clearing. A particle that the directory
then finds is in the list of the patch that it names, at the index that it names. -/
theorem found_resident {capacity : Nat} (hdirectory : s.directory = .allocate capacity)
    (hdistinct : s.patchIds.Nodup)
    (hnew : ∀ p ∈ s.patches, ∃ serial averaged, p = Patch.new p.id serial averaged)
    {calls : List Call} (hcalls : ∀ c ∈ calls, c.Direct) {id : ParticleId} {loc : Location}
    (hfound : (s.after calls).directory.lookup id = .ok loc) :
    ∃ p, (s.after calls).patch? loc.patch = some p ∧
      ∃ h : loc.index.toNat < p.atoms.length, p.atoms[loc.index.toNat].id = id := by
  have hstart : Residence s.directory s.patches := by
    refine ⟨hdistinct, fun p hp => ?_, fun n loc hslot => ?_⟩
    · obtain ⟨serial, averaged, hp⟩ := hnew p hp
      rw [hp]
      exact ⟨.idle, Patch.stands_new ..⟩
    · rw [hdirectory, Directory.allocate, Directory.slot_replicate_none] at hslot
      cases hslot
  have hend := residence_after hstart hcalls
  obtain ⟨p, hp, hpatch, hindex⟩ := hend.resident _ _ (Directory.lookup_eq_ok_iff.mp hfound).2
  obtain ⟨id', hget, hid'⟩ := Option.map_eq_some_iff.mp hindex
  rw [Patch.ids, List.getElem?_map, Option.map_eq_some_iff] at hget
  obtain ⟨a, ha, rfl⟩ := hget
  obtain ⟨hlt, hget⟩ := List.getElem?_eq_some_iff.mp ha
  refine ⟨p, find?_of_mem hend.distinct hp hpatch, hlt, ?_⟩
  rw [hget]
  exact UInt32.toNat_inj.mp hid'

/-- Particle 2 is listed by a patch from which it is stolen by another that lists it twice; there
are a step, a replacement that does not fit, clearing, and an edit of positions. -/
theorem found_resident_stolen :
    let calls : List Call := [
      .clear,
      .replaceAtoms ⟨0⟩ [⟨1, Vec3.zero⟩, ⟨2, Vec3.zero⟩],
      .replaceAtoms ⟨1⟩ [⟨2, Vec3.zero⟩, ⟨3, Vec3.zero⟩, ⟨2, Vec3.zero⟩],
      .onPatch ⟨0⟩ (.positionsReady 0),
      .replaceAtoms ⟨0⟩ [⟨9, Vec3.zero⟩],
      .onPatch ⟨1⟩ (.editAtoms fun atoms => atoms.map fun a => { a with position := ⟨1, 1, 1⟩ })]
    let s := (build ⟨4, 0, true, 4⟩ [⟨0⟩, ⟨1⟩]).after calls
    s.directory.lookup 2 = .ok ⟨⟨1⟩, 2⟩ ∧ s.patches.map Patch.ids = [[1, 2], [2, 3, 2]] ∧
    ∃ p, s.patch? ⟨1⟩ = some p ∧ ∃ h : 2 < p.atoms.length, p.atoms[2].id = 2 := by
  intro calls s
  have hcalls : ∀ c ∈ calls, c.Direct := by
    simp [calls, Call.Direct, Patch.Call.KeepsIds, UInt32.size]
  have hnew : ∀ p ∈ (build ⟨4, 0, true, 4⟩ [⟨0⟩, ⟨1⟩]).patches,
      ∃ serial averaged, p = Patch.new p.id serial averaged :=
    List.forall_mem_cons.mpr ⟨⟨0, true, rfl⟩, List.forall_mem_singleton.mpr ⟨3, true, rfl⟩⟩
  have hfound : s.directory.lookup 2 = .ok ⟨⟨1⟩, 2⟩ := by decide +kernel
  exact ⟨hfound, by decide +kernel, found_resident rfl (by decide) hnew hcalls hfound⟩

end Assembly

end PatchDynamics
