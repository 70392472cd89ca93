import PatchDynamics.Experiment.Run
import PatchDynamics.Proofs.Directory.Replacement
import PatchDynamics.Proofs.Patch.Protocol

/-!
# The phase of integration

Positions and velocities change, and nothing else does: as long as every particle has a velocity and
all boxes are closed, integration does not fail, and every patch lists the same particles after it.

* `moveAtoms_ok` — the atoms of one patch;
* `movePatch_ok` — one patch;
* `moveAll_ok` — all patches.
-/

namespace PatchDynamics

/-! ## Changes of a patch without open boxes -/

namespace Patch

variable {p : Patch}

theorem editAtoms_of_closed (hclosed : p.openBoxes = 0) (f : List Atom → List Atom) :
    p.editAtoms f = ⟨.ok (), [], { p with atoms := f p.atoms }⟩ := by
  rw [editAtoms, ensureClosed_of_closed hclosed]

theorem setAverages_of_closed (hclosed : p.openBoxes = 0) (averages : List Atom) :
    p.setAverages averages = ⟨.ok (), [], { p with averages := averages }⟩ := by
  rw [setAverages, ensureClosed_of_closed hclosed]

end Patch

namespace Experiment

/-! ## Integration -/

variable (grid : Grid) (dt : Float)

/-- One atom is moved if it has a velocity. -/
theorem moveAtom_ok (motion : Motion) {a : Atom} (hfits : a.id.toNat < motion.velocities.size)
    (f : Vec3) :
    ∃ a' motion', moveAtom grid dt motion a f = .ok (a', motion') ∧ a'.id = a.id ∧
      motion'.velocities.size = motion.velocities.size := by
  have hvelocity := Array.getElem?_eq_getElem hfits
  rw [moveAtom]
  dsimp only
  rw [hvelocity]
  exact ⟨_, _, rfl, rfl, Array.size_setIfInBounds ..⟩

/-- **Atoms are moved** if they have velocities, and stay in order. Those without a force stay where
they are. -/
theorem moveAtoms_ok {atoms : List Atom} (forces : List Vec3) {motion : Motion}
    (hfits : ∀ a ∈ atoms, a.id.toNat < motion.velocities.size) :
    ∃ atoms' motion', moveAtoms grid dt atoms forces motion = .ok (atoms', motion') ∧
      atoms'.map Atom.id = atoms.map Atom.id ∧
      motion'.velocities.size = motion.velocities.size := by
  induction atoms generalizing forces motion with
  | nil => exact ⟨[], motion, rfl, rfl, rfl⟩
  | cons a atoms ih =>
    cases forces with
    | nil => exact ⟨a :: atoms, motion, rfl, rfl, rfl⟩
    | cons f forces =>
      rw [List.forall_mem_cons] at hfits
      obtain ⟨a', motion₁, hfirst, hid, hsize₁⟩ :=
        moveAtom_ok grid dt motion hfits.1 f
      rw [← hsize₁] at hfits
      obtain ⟨atoms', motion', hrest, hids, hsize'⟩ := ih forces hfits.2
      refine ⟨a' :: atoms', motion', ?_, ?_, hsize'.trans hsize₁⟩
      · rw [moveAtoms, hfirst]
        dsimp only [bind, Except.bind]
        rw [hrest]
        rfl
      · rw [List.map_cons, List.map_cons, hid, hids]

/-- **One patch** is moved if its boxes are closed and its atoms have velocities. -/
theorem movePatch_ok (plan : Plan) {p : Patch} {motion : Motion} (hclosed : p.openBoxes = 0)
    (hfits : ∀ id ∈ p.ids, id.toNat < motion.velocities.size) :
    ∃ p' motion', movePatch plan p motion = .ok (p', motion') ∧ p.Edited p' ∧ p'.ids = p.ids ∧
      motion'.velocities.size = motion.velocities.size := by
  obtain ⟨new, motion', hmove, hids, hsize⟩ := moveAtoms_ok plan.grid plan.config.dt
    p.sums.total fun a ha => hfits a.id (List.mem_map_of_mem ha)
  have hset := Patch.setAverages_of_closed (p := { p with atoms := new }) hclosed
    (halfWay plan.grid p.atoms new)
  rw [movePatch, Patch.ensureClosed_of_closed hclosed]
  dsimp only [bind, Except.bind, liftRefusal]
  rw [hmove]
  dsimp only
  rw [Patch.editAtoms_of_closed hclosed]
  split
  · rw [hset]
    exact ⟨_, _, rfl, ⟨_, _, _, _, rfl⟩, hids, hsize⟩
  · exact ⟨_, _, rfl, ⟨_, _, _, _, rfl⟩, hids, hsize⟩

/-- **All patches** are moved, each on its own. -/
theorem moveAll_ok (plan : Plan) {l : List Patch} (motion : Motion)
    (hdistinct : (l.map Patch.id).Nodup) (hclosed : ∀ p ∈ l, p.openBoxes = 0)
    (hfits : ∀ p ∈ l, ∀ id ∈ p.ids, id.toNat < motion.velocities.size) :
    ∃ f motion', moveAll plan l motion = .ok (l.map f, motion') ∧
      (∀ p ∈ l, p.Edited (f p) ∧ (f p).ids = p.ids) ∧
      motion'.velocities.size = motion.velocities.size := by
  induction l generalizing motion with
  | nil => exact ⟨id, motion, rfl, fun _ hp => absurd hp List.not_mem_nil, rfl⟩
  | cons p l ih =>
    rw [List.map_cons, List.nodup_cons] at hdistinct
    rw [List.forall_mem_cons] at hclosed hfits
    obtain ⟨p', motion₁, hfirst, hedited, hids, hsize₁⟩ := movePatch_ok plan hclosed.1 hfits.1
    obtain ⟨f, motion', hrest, hothers, hsize'⟩ :=
      ih motion₁ hdistinct.2 hclosed.2 fun q hq id hid => by
        rw [hsize₁]
        exact hfits.2 q hq id hid
    -- the patches are known by their numbers
    have hne : ∀ q ∈ l, q.id ≠ p.id := fun q hq heq => hdistinct.1 (heq ▸ List.mem_map_of_mem hq)
    have hmap : (p :: l).map (fun q => if q.id = p.id then p' else f q) = p' :: l.map f := by
      rw [List.map_cons, if_pos rfl]
      exact congrArg _ (List.map_congr_left fun q hq => if_neg (hne q hq))
    refine ⟨fun q => if q.id = p.id then p' else f q, motion', ?_, ?_, hsize'.trans hsize₁⟩
    · rw [hmap, moveAll, hfirst]
      dsimp only [bind, Except.bind]
      rw [hrest]
      rfl
    · rw [List.forall_mem_cons]
      refine ⟨?_, fun q hq => ?_⟩
      · dsimp only
        rw [if_pos rfl]
        exact ⟨hedited, hids⟩
      · dsimp only
        rw [if_neg (hne q hq)]
        exact hothers q hq

end Experiment

end PatchDynamics
