import Mathlib.Data.List.Perm.Basic
import PatchDynamics.Experiment.Run
import PatchDynamics.Proofs.Directory.Migration
import PatchDynamics.Proofs.Grid.Cells

/-!
# The migration phase

Before some steps every particle goes to the patch that holds its position. Whatever the positions
are, none is lost or doubled, and the counts say what moved:

* `targets_ok` — every particle has a target, and the directory decides how it is counted;
* `replaceEach_ok` — all patches take over their new lists;
* `Housed` — each particle is listed once, and found where it is listed;
* `assign_ok` — a migration succeeds, and all particles are housed after it.
-/

namespace PatchDynamics

namespace Experiment

/-! ## Targets -/

section Targets

variable (grid : Grid) (d : Directory) (a : Atom)

/-- Whether a particle is found in another patch than the one that holds its position. -/
def changesPatch : Bool :=
  match d.lookup a.id with
  | .ok loc => loc.patch ≠ grid.home a.position
  | .error _ => false

/-- Whether a particle is not found. -/
def isLost : Bool :=
  match d.lookup a.id with
  | .ok _ => false
  | .error _ => true

variable {grid d a}

/-- A particle that fits is found, or it is in no patch. -/
theorem not_isViolation_of_lookup {id : ParticleId} (hfits : id.toNat < d.capacity) {r : Refusal}
    (hlookup : d.lookup id = .error r) : r.isViolation = false := by
  rw [Directory.lookup, if_neg (Nat.not_le_of_lt hfits)] at hlookup
  split at hlookup
  · cases hlookup
    rfl
  · split at hlookup
    · cases hlookup
    · cases hlookup
      rfl

/-- The counts with one more particle. -/
theorem count_ok (hfits : a.id.toNat < d.capacity) (m : Migration) :
    m.count (d.lookup a.id) (grid.home a.position) =
      .ok ⟨m.migrations + if changesPatch grid d a then 1 else 0,
        m.unassigned + if isLost d a then 1 else 0⟩ := by
  rw [changesPatch, isLost]
  cases hlookup : d.lookup a.id with
  | ok loc =>
    by_cases hsame : loc.patch = grid.home a.position
    · simp [Migration.count, hsame]
    · simp [Migration.count, hsame]
  | error r => simp [Migration.count, not_isViolation_of_lookup hfits hlookup]

/-- **Every particle has a target**, and the counts are those of the particles. -/
theorem targets_ok {s : Assembly} (hgrid : grid.Fits) (hpatches : s.patches.length = grid.cells)
    {atoms : List Atom} (hfits : ∀ a ∈ atoms, a.id.toNat < s.directory.capacity) (m : Migration) :
    targets grid s atoms m =
      .ok (atoms.map fun a => (grid.home a.position, a),
        ⟨m.migrations + atoms.countP (changesPatch grid s.directory),
          m.unassigned + atoms.countP (isLost s.directory)⟩) := by
  induction atoms generalizing m with
  | nil => rfl
  | cons a atoms ih =>
    rw [List.forall_mem_cons] at hfits
    have hthere : ¬ s.patches.length ≤ (grid.home a.position).number.toNat := by
      rw [hpatches]
      exact Nat.not_le_of_lt (hgrid.mem_patches.mp (hgrid.home_mem a.position))
    rw [targets, hgrid.patchOf_home]
    dsimp only [bind, Except.bind, lift, pure, Except.pure]
    rw [count_ok hfits.1]
    dsimp only
    rw [if_neg hthere, ih hfits.2]
    dsimp only
    rw [List.countP_cons, List.countP_cons, Nat.add_comm (atoms.countP _),
      Nat.add_comm (atoms.countP _), ← Nat.add_assoc, ← Nat.add_assoc]
    rfl

end Targets

/-! ## Replacement -/

section Replacement

variable {grid : Grid} {s : Assembly} {lists : PatchId → List Atom}

theorem length_of_named (hnamed : s.patchIds = grid.patches) : s.patches.length = grid.cells := by
  rw [← Grid.length_patches, ← hnamed, Assembly.patchIds, List.length_map]

/-- The lists that particles go to, patch by patch. -/
theorem distribute_eq (hgrid : grid.Fits) (hnamed : s.patchIds = grid.patches) (atoms : List Atom) :
    distribute s.patches.length (atoms.map fun a => (grid.home a.position, a)) =
      s.patches.map fun p => atoms.filter fun a => grid.home a.position = p.id := by
  have hids : (s.patches.map fun p => atoms.filter fun a => grid.home a.position = p.id) =
      s.patchIds.map fun id => atoms.filter fun a => grid.home a.position = id := by
    rw [Assembly.patchIds, List.map_map]
    rfl
  rw [hids, hnamed, Grid.patches, List.map_map, distribute, length_of_named hnamed]
  refine List.map_congr_left fun i hi => ?_
  have hsnd : (Prod.snd ∘ fun a : Atom => (grid.home a.position, a)) = id := rfl
  rw [List.filter_map, List.map_map, hsnd, List.map_id, Function.comp]
  refine List.filter_congr fun a _ => Bool.eq_iff_iff.mpr ?_
  rw [decide_eq_true_iff, Function.comp, decide_eq_true_iff]
  exact hgrid.number_eq_iff (p := grid.home a.position) (List.mem_range.mp hi)

/-- **All patches take over their lists**, one after the other. -/
theorem replaceEach_ok {d₀ d : Directory} {l rest : List Patch} (hx : Exchange d₀ l lists)
    {done : List PatchId} (hmidway : Midway d₀ l lists done d) (hrest : ∀ p ∈ rest, p ∈ l)
    (hnew : (done ++ rest.map Patch.id).Nodup) :
    ∃ d', replaceEach d rest (rest.map fun p => lists p.id) =
        .ok (d', rest.map fun p => p.replaced (lists p.id)) ∧
      Midway d₀ l lists (done ++ rest.map Patch.id) d' := by
  induction rest generalizing done d with
  | nil =>
    refine ⟨d, rfl, ?_⟩
    rw [List.map_nil, List.append_nil]
    exact hmidway
  | cons p rest ih =>
    rw [List.forall_mem_cons] at hrest
    rw [List.map_cons, List.append_cons] at hnew
    have hfresh : p.id ∉ done := fun hmem =>
      (List.nodup_append.mp (List.nodup_append.mp hnew).1).2.2 _ hmem _ List.mem_cons_self rfl
    obtain ⟨d₁, hreplace, hmidway₁⟩ := hmidway.step hx hrest.1 hfresh
    obtain ⟨d', hothers, hmidway'⟩ := ih hmidway₁ hrest.2 hnew
    refine ⟨d', ?_, ?_⟩
    · rw [List.map_cons, replaceEach, hreplace]
      dsimp only
      rw [hothers]
      rfl
    · rw [List.map_cons, List.append_cons]
      exact hmidway'

end Replacement

/-! ## Migration -/

/-- The numbers of `n` particles. -/
def particleIds (n : Nat) : List ParticleId := (List.range n).map UInt32.ofNat

theorem nodup_particleIds {n : Nat} (hn : n ≤ UInt32.size) : (particleIds n).Nodup :=
  nodup_map_ofNat (fun _ _ hsame => hsame) hn

@[simp] theorem length_particleIds (n : Nat) : (particleIds n).length = n := by
  rw [particleIds, List.length_map, List.length_range]

theorem toNat_lt_of_mem {n : Nat} {id : ParticleId} (h : id ∈ particleIds n) : id.toNat < n := by
  obtain ⟨i, hi, rfl⟩ := List.mem_map.mp h
  rw [UInt32.toNat_ofNat']
  exact Nat.lt_of_le_of_lt (Nat.mod_le _ _) (List.mem_range.mp hi)

/-- Each of `n` particles is listed once by one patch, and it is found just there. -/
structure Housed (n : Nat) (s : Assembly) : Prop where
  /-- the lists have each particle once -/
  listed : (s.patches.flatMap Patch.ids).Perm (particleIds n)
  /-- the directory knows the patch and the index -/
  found : ∀ p ∈ s.patches, ∀ i id, p.ids[i]? = some id →
    s.directory.lookup id = .ok ⟨p.id, UInt32.ofNat i⟩

/-- The number of atoms whose positions are in another patch than the one that lists them. -/
def strays (grid : Grid) (patches : List Patch) : Nat :=
  (patches.flatMap fun p =>
    p.atoms.filter fun a => (grid.patchOf a.position).toOption ≠ some p.id).length

/-- A directory for `n` particles that agrees with the patches. -/
structure Sound (n : Nat) (s : Assembly) : Prop where
  /-- particles are found where they are listed -/
  agrees : s.Agrees
  /-- the directory is tidy -/
  tidy : s.directory.Tidy
  /-- the particles fit -/
  capacity : s.directory.capacity = n
  /-- nobody has cleared the directory -/
  live : s.directory.cleared = false

/-- A directory for `n` particles, all of which are in some patch. -/
structure Settled (n : Nat) (s : Assembly) : Prop extends Sound n s where
  /-- the lists have each particle once -/
  listed : (s.patches.flatMap Patch.ids).Perm (particleIds n)

section Assign

variable {n : Nat} {grid : Grid} {s : Assembly} {atoms : List Atom}

theorem Settled.housed (h : Settled n s) : Housed n s where
  listed := h.listed
  found := by
    intro p hp i id hi
    have hlength := Directory.length_le_of_nodup (h.agrees.nodup hp)
    obtain ⟨hlt, -⟩ := List.getElem?_eq_some_iff.mp hi
    refine (h.agrees.found id ⟨p.id, UInt32.ofNat i⟩).mpr ⟨p, hp, rfl, ?_⟩
    rw [UInt32.toNat_ofNat_of_lt' (Nat.lt_of_lt_of_le hlt hlength)]
    exact hi

theorem Settled.length_eq (h : Settled n s) : (s.patches.flatMap Patch.ids).length = n := by
  rw [h.listed.length_eq, length_particleIds]

/-- The directory counts all particles. -/
theorem Settled.census_eq (h : Settled n s) : s.directory.census = ⟨n, n, 0, false⟩ := by
  have hassigned : s.directory.assigned = n :=
    (Directory.assigned_of_entries h.agrees.apart (h.agrees.entries h.tidy)).trans h.length_eq
  rw [Directory.census, hassigned, h.capacity, h.live, Nat.sub_self]

/-- An assembly with the same directory and the same lists has all particles settled, too. -/
theorem Settled.congr {s' : Assembly} (h : Settled n s) (hdirectory : s'.directory = s.directory)
    (hlists : s'.patches.map (fun p => (p.id, p.ids)) = s.patches.map fun p => (p.id, p.ids)) :
    Settled n s' := by
  have hids : s'.patches.flatMap Patch.ids = s.patches.flatMap Patch.ids := by
    have hflat := congrArg (List.flatMap Prod.snd) hlists
    rwa [List.flatMap_map, List.flatMap_map] at hflat
  refine ⟨⟨⟨?_, fun id loc => ?_⟩, ?_, ?_, ?_⟩, ?_⟩
  · rw [hids]
    exact h.agrees.apart
  · have hiff : ∀ l : List Patch, (∃ p ∈ l, p.id = loc.patch ∧ p.ids[loc.index.toNat]? = some id) ↔
        ∃ pair ∈ l.map fun p => (p.id, p.ids),
          pair.1 = loc.patch ∧ pair.2[loc.index.toNat]? = some id := by
      intro l
      simp only [List.mem_map, exists_exists_and_eq_and]
    rw [hdirectory, h.agrees.found, hiff, hiff, hlists]
  · rw [hdirectory]
    exact h.tidy
  · rw [hdirectory]
    exact h.capacity
  · rw [hdirectory]
    exact h.live
  · rw [hids]
    exact h.listed

/-- Before the first migration every particle is lost. -/
theorem Sound.counts_of_empty (h : Sound n s) (hempty : ∀ p ∈ s.patches, p.ids = [])
    (grid : Grid) (atoms : List Atom) :
    atoms.countP (changesPatch grid s.directory) = 0 ∧
      atoms.countP (isLost s.directory) = atoms.length := by
  have hnone : ∀ id loc, s.directory.lookup id ≠ .ok loc := by
    intro id loc hfound
    obtain ⟨p, hp, -, hindex⟩ := (h.agrees.found id loc).mp hfound
    rw [hempty p hp] at hindex
    cases hindex
  rw [List.countP_eq_zero, List.countP_eq_length]
  constructor
  · intro a _
    rw [changesPatch]
    cases hlookup : s.directory.lookup a.id with
    | ok loc => exact absurd hlookup (hnone a.id loc)
    | error r => exact Bool.false_ne_true
  · intro a _
    rw [isLost]
    cases hlookup : s.directory.lookup a.id with
    | ok loc => exact absurd hlookup (hnone a.id loc)
    | error r => rfl

/-- Later on no particle is lost, and those count whose positions have left their patches. -/
theorem Settled.counts (h : Settled n s) (hgrid : grid.Fits) :
    (s.patches.flatMap Patch.atoms).countP (changesPatch grid s.directory) =
        strays grid s.patches ∧
      (s.patches.flatMap Patch.atoms).countP (isLost s.directory) = 0 := by
  have hfound : ∀ p ∈ s.patches, ∀ a ∈ p.atoms,
      ∃ index, s.directory.lookup a.id = .ok ⟨p.id, index⟩ := by
    intro p hp a ha
    obtain ⟨i, hi⟩ := List.mem_iff_getElem?.mp (List.mem_map_of_mem ha : a.id ∈ p.ids)
    exact ⟨_, h.housed.found p hp i a.id hi⟩
  constructor
  · rw [List.countP_eq_length_filter, List.filter_flatMap, strays]
    refine congrArg List.length (List.flatMap_congr fun p hp => List.filter_congr fun a ha => ?_)
    obtain ⟨index, hlookup⟩ := hfound p hp a ha
    rw [changesPatch, hlookup, hgrid.patchOf_home, Bool.eq_iff_iff]
    change decide (p.id ≠ grid.home a.position) = true ↔
      decide (some (grid.home a.position) ≠ some p.id) = true
    rw [decide_eq_true_iff, decide_eq_true_iff, Ne, Ne, Option.some_inj, eq_comm]
  · rw [List.countP_eq_zero]
    intro a ha
    obtain ⟨p, hp, ha⟩ := List.mem_flatMap.mp ha
    obtain ⟨index, hlookup⟩ := hfound p hp a ha
    rw [isLost, hlookup]
    exact Bool.false_ne_true

/-- **Once all patches have their new lists**, every particle is in some patch. -/
theorem settled_of_midway {lists : PatchId → List Atom} {d : Directory} (h : Sound n s)
    (hx : Exchange s.directory s.patches lists)
    (hmidway : Midway s.directory s.patches lists s.patchIds d)
    (hlisted : ((s.patchIds.flatMap lists).map Atom.id).Perm (particleIds n)) :
    Settled n { s with
      directory := d
      patches := s.patches.map fun p => p.replaced (lists p.id) } := by
  have hids : (s.patches.map fun p => p.replaced (lists p.id)).flatMap Patch.ids =
      (s.patchIds.flatMap lists).map Atom.id := by
    rw [List.flatMap_map, Assembly.patchIds, List.map_flatMap, List.flatMap_map]
    rfl
  have hdone : ∀ p ∈ s.patches, p.id ∈ s.patchIds := fun p hp => List.mem_map_of_mem hp
  refine ⟨⟨⟨?_, fun id loc => ?_⟩, hmidway.tidy hx h.tidy, ?_, ?_⟩, ?_⟩
  · have hapart := hx.apart
    rwa [← List.flatMap_map Patch.id fun id => (lists id).map Atom.id, ← List.map_flatMap,
      ← Assembly.patchIds, ← hids] at hapart
  · rw [hmidway.lookup_eq_ok_iff hx h.tidy fun p hp => h.agrees.nodup hp]
    constructor
    · rintro (⟨p, hp, -, hpatch, hindex⟩ | ⟨-, p, hp, hnot, -⟩)
      · exact ⟨_, List.mem_map_of_mem hp, hpatch, hindex⟩
      · exact absurd (hdone p hp) hnot
    · rintro ⟨q, hq, hpatch, hindex⟩
      obtain ⟨p, hp, rfl⟩ := List.mem_map.mp hq
      exact .inl ⟨p, hp, hdone p hp, hpatch, hindex⟩
  · exact hmidway.capacity.trans h.capacity
  · rw [hmidway.cleared, h.live, Bool.false_and]
  · rw [hids]
    exact hlisted

/-- The patches with the atoms that belong there. -/
def sorted (grid : Grid) (atoms : List Atom) (patches : List Patch) : List Patch :=
  patches.map fun p => p.replaced (atoms.filter fun a => grid.home a.position = p.id)

/-- A migration goes through if all patches take over their lists. -/
theorem assign_of_replaced (hgrid : grid.Fits) (hnamed : s.patchIds = grid.patches)
    (hfits : ∀ a ∈ atoms, a.id.toNat < s.directory.capacity) {d : Directory}
    (hreplace : replaceEach s.directory s.patches
        (s.patches.map fun p => atoms.filter fun a => grid.home a.position = p.id) =
      .ok (d, sorted grid atoms s.patches)) :
    assign grid s atoms =
      .ok (⟨atoms.countP (changesPatch grid s.directory), atoms.countP (isLost s.directory)⟩,
        { s with directory := d, patches := sorted grid atoms s.patches }) := by
  rw [assign, targets_ok hgrid (length_of_named hnamed) hfits]
  dsimp only [bind, Except.bind]
  rw [distribute_eq hgrid hnamed, hreplace, Nat.zero_add, Nat.zero_add]
  rfl

/-- **A migration** of all particles succeeds, and every one is in some patch after it. -/
theorem assign_ok (hn : n ≤ UInt32.size) (hgrid : grid.Fits) (hnamed : s.patchIds = grid.patches)
    (hclosed : ∀ p ∈ s.patches, p.openBoxes = 0) (h : Sound n s)
    (hall : (atoms.map Atom.id).Perm (particleIds n)) :
    ∃ d, assign grid s atoms =
        .ok (⟨atoms.countP (changesPatch grid s.directory), atoms.countP (isLost s.directory)⟩,
          { s with directory := d, patches := sorted grid atoms s.patches }) ∧
      Settled n { s with directory := d, patches := sorted grid atoms s.patches } := by
  have hfits : ∀ a ∈ atoms, a.id.toNat < s.directory.capacity := fun a ha =>
    h.capacity ▸ toNat_lt_of_mem (hall.mem_iff.mp (List.mem_map_of_mem ha))
  have hlists : (s.patchIds.flatMap fun id => atoms.filter fun a => grid.home a.position = id).Perm
      atoms := by
    rw [hnamed]
    exact flatMap_filter_perm hgrid.nodup fun a _ => hgrid.home_mem a.position
  have hlisted := (hlists.map Atom.id).trans hall
  have hx : Exchange s.directory s.patches fun id =>
      atoms.filter fun a => grid.home a.position = id := by
    refine h.agrees.exchange h.tidy (hnamed ▸ hgrid.nodup) ?_ hclosed ?_ ?_
    · rw [hnamed]
      exact hgrid.reserved_not_mem
    · exact fun id _ a ha => hfits a (List.mem_of_mem_filter ha)
    · exact hlisted.nodup_iff.mpr (nodup_particleIds hn)
  obtain ⟨d, hreplace, hmidway⟩ := replaceEach_ok hx hx.midway_nil (fun _ hp => hp) hx.distinct
  exact ⟨d, assign_of_replaced hgrid hnamed hfits hreplace,
    settled_of_midway h hx hmidway hlisted⟩

end Assign

end Experiment

end PatchDynamics
