import PatchDynamics.Patch
import PatchDynamics.Proofs.Directory.Entries

/-!
# Replacing a membership

A patch that replaces its list of atoms gives up the particles of the old list and then enters the
new one. The two changes of the directory check their numbers separately, which leaves a gap:

* `Replacement` — all that a replacement can do;
* `slot_exchanged` — the entries after one that succeeds;
* `replaceAtoms_failure` — one that fails leaves the patch as it is, and the directory as well only
  if there was nothing to give up: where the new list does not fit, the old one is already gone.
-/

namespace PatchDynamics

namespace Directory

variable {patch : PatchId} {outgoing incoming : List ParticleId} {d : Directory}

theorem entry_released (d : Directory) (patch : PatchId) (ids : List ParticleId)
    (id : ParticleId) :
    (d.released patch ids).entry id =
      if id ∈ ids then (d.entry id).filter (fun loc => loc.patch ≠ patch) else d.entry id := by
  have hmem : id.toNat ∈ ids.map UInt32.toNat ↔ id ∈ ids := by
    simp [UInt32.toNat_inj]
  rw [← slot_toNat, slot_released, slot_toNat]
  simp only [hmem]

/-- Giving a list up changes nothing exactly if no entry of it names the patch. -/
theorem released_eq_self_iff :
    d.released patch outgoing = d ↔
      ∀ id ∈ outgoing, ∀ loc, d.entry id = some loc → loc.patch ≠ patch := by
  constructor
  · intro hsame id hid loc hentry hpatch
    have hgone := entry_released d patch outgoing id
    rw [hsame, if_pos hid, hentry, Option.filter_some] at hgone
    simp [hpatch] at hgone
  · intro hother
    have htable : (d.released patch outgoing).table = d.table := by
      refine table_ext (capacity_released d patch outgoing) fun n => ?_
      rw [slot_released]
      split
      · next hn =>
        obtain ⟨id, hid, rfl⟩ := List.mem_map.mp hn
        cases hslot : slot d.table id.toNat with
        | none => rfl
        | some loc => rw [Option.filter_some, if_pos (decide_eq_true (hother id hid loc hslot))]
      · rfl
    calc d.released patch outgoing
        = ⟨(d.released patch outgoing).table, d.cleared⟩ := rfl
      _ = d := by rw [htable]

/-- The directory after a patch gave one list up and entered another. -/
def exchanged (d : Directory) (patch : PatchId) (outgoing incoming : List ParticleId) :
    Directory :=
  ⟨putAll patch 0 incoming (d.released patch outgoing).table, false⟩

@[simp] theorem capacity_exchanged (d : Directory) (patch : PatchId)
    (outgoing incoming : List ParticleId) :
    (d.exchanged patch outgoing incoming).capacity = d.capacity :=
  (size_putAll ..).trans (capacity_released d patch outgoing)

/-- The entries after an exchange: what is entered stands, and of the rest what was given up is
gone. -/
theorem slot_exchanged (hfits : ∀ id ∈ incoming, id.toNat < d.capacity) (n : Nat) :
    slot (d.exchanged patch outgoing incoming).table n =
      (placed patch 0 incoming n).or
        (if n ∈ outgoing.map UInt32.toNat then
          (slot d.table n).filter (fun loc => loc.patch ≠ patch)
        else slot d.table n) := by
  rw [← capacity_released d patch outgoing] at hfits
  rw [← slot_released]
  exact slot_putAll patch 0 n hfits

end Directory

namespace Patch

/-- The particles of a patch. -/
def ids (p : Patch) : List ParticleId := p.atoms.map Atom.id

/-- The patch with another membership. -/
def replaced (p : Patch) (atoms : List Atom) : Patch :=
  { p with atoms := atoms, averages := atoms, membershipChanged := true }

variable {d d' : Directory} {p p' : Patch} {atoms : List Atom} {e : Failure}

/-- All that replacing the membership of a patch can do. -/
inductive Replacement (d : Directory) (p : Patch) (atoms : List Atom) :
    Except Failure Unit × Directory × Patch → Prop where
  /-- boxes are open, and nothing changes -/
  | busy (opened : p.openBoxes ≠ 0) :
      Replacement d p atoms (.error (.refused (.boxesOpen p.id p.openBoxes)), d, p)
  /-- a particle of the old list does not fit, and nothing changes -/
  | stray (closed : p.openBoxes = 0) {id : ParticleId} (listed : id ∈ p.ids)
      (beyond : d.capacity ≤ id.toNat) :
      Replacement d p atoms (.error (.refused (.outOfRange id d.capacity)), d, p)
  /-- a particle of the new list does not fit, and the old list is given up -/
  | misfit (closed : p.openBoxes = 0) (known : ∀ id ∈ p.ids, id.toNat < d.capacity)
      {id : ParticleId} (listed : id ∈ atoms.map Atom.id) (beyond : d.capacity ≤ id.toNat) :
      Replacement d p atoms
        (.error (.refused (.outOfRange id d.capacity)), d.released p.id p.ids, p)
  /-- the patch may enter nothing, and the old list is given up -/
  | reserved (closed : p.openBoxes = 0) (known : ∀ id ∈ p.ids, id.toNat < d.capacity)
      (reserved : p.id = PatchId.reserved) :
      Replacement d p atoms (.error (.fault .reservedPatch), d.released p.id p.ids, p)
  /-- the old list is given up and the new one entered -/
  | replaced (closed : p.openBoxes = 0) (known : ∀ id ∈ p.ids, id.toNat < d.capacity)
      (fits : ∀ id ∈ atoms.map Atom.id, id.toNat < d.capacity)
      (unreserved : p.id ≠ PatchId.reserved) :
      Replacement d p atoms
        (.ok (), d.exchanged p.id p.ids (atoms.map Atom.id), p.replaced atoms)

theorem ensureClosed_of_closed (h : p.openBoxes = 0) : p.ensureClosed = .ok () := if_pos h

theorem ensureClosed_of_opened (h : p.openBoxes ≠ 0) :
    p.ensureClosed = .error (.boxesOpen p.id p.openBoxes) := if_neg h

theorem replacement (d : Directory) (p : Patch) (atoms : List Atom) :
    Replacement d p atoms (replaceAtoms d p atoms) := by
  unfold replaceAtoms
  by_cases hclosed : p.openBoxes = 0
  · rw [ensureClosed_of_closed hclosed]
    have hrelease := d.release p.id p.ids
    rw [ids] at hrelease
    dsimp only
    generalize d.unregister p.id (p.atoms.map Atom.id) = released at hrelease
    cases hrelease with
    | misfit listed beyond => exact .stray hclosed listed beyond
    | released known count =>
      -- the new list is checked against the capacity that the old one was
      have hcapacity := d.capacity_released p.id p.ids
      have hregistration := (d.released p.id p.ids).registration p.id (atoms.map Atom.id)
      rw [ids] at hregistration hcapacity
      dsimp only
      generalize (d.released p.id _).register p.id (atoms.map Atom.id) = registered
        at hregistration
      cases hregistration with
      | misfit listed beyond =>
        rw [hcapacity] at beyond ⊢
        exact .misfit hclosed known listed beyond
      | reserved hpatch => exact .reserved hclosed known hpatch
      | entered fits hpatch =>
        rw [hcapacity] at fits
        exact .replaced hclosed known fits hpatch
  · rw [ensureClosed_of_opened hclosed]
    exact .busy hclosed

/-- A replacement where both lists fit succeeds. -/
theorem replaceAtoms_of_fits (closed : p.openBoxes = 0)
    (known : ∀ id ∈ p.ids, id.toNat < d.capacity)
    (fits : ∀ id ∈ atoms.map Atom.id, id.toNat < d.capacity)
    (unreserved : p.id ≠ PatchId.reserved) :
    replaceAtoms d p atoms =
      (.ok (), d.exchanged p.id p.ids (atoms.map Atom.id), p.replaced atoms) := by
  have hall := replacement d p atoms
  generalize replaceAtoms d p atoms = result at hall
  cases hall with
  | busy opened => exact absurd closed opened
  | stray _ listed beyond => exact absurd (known _ listed) (Nat.not_lt.mpr beyond)
  | misfit _ _ listed beyond => exact absurd (fits _ listed) (Nat.not_lt.mpr beyond)
  | reserved _ _ reserved => exact absurd reserved unreserved
  | replaced => rfl

/-- A replacement that gives the old list up and then fails keeps the directory exactly if there was
nothing to give up. -/
theorem released_eq_self_of_closed (closed : p.openBoxes = 0)
    (known : ∀ id ∈ p.ids, id.toNat < d.capacity) :
    d.released p.id p.ids = d ↔
      p.openBoxes ≠ 0 ∨ (∃ id ∈ p.ids, d.capacity ≤ id.toNat) ∨
        ∀ id ∈ p.ids, ∀ loc, d.entry id = some loc → loc.patch ≠ p.id := by
  rw [Directory.released_eq_self_iff]
  constructor
  · exact fun hnothing => .inr (.inr hnothing)
  · rintro (hopen | ⟨id, hid, hbeyond⟩ | hnothing)
    · exact absurd closed hopen
    · exact absurd (known id hid) (Nat.not_lt.mpr hbeyond)
    · exact hnothing

/-- **What a failed replacement leaves.** The patch is as it was. The directory is as it was exactly
if boxes are open, or a particle of the old list does not fit, or no entry of the old list names the
patch. Otherwise the new list is what failed, and the particles of the old list that were entered
for the patch have lost their entries, while all other entries are kept. -/
theorem replaceAtoms_failure (h : replaceAtoms d p atoms = (.error e, d', p')) :
    p' = p ∧ d'.capacity = d.capacity ∧ d'.cleared = d.cleared ∧
    (d' = d ↔ p.openBoxes ≠ 0 ∨ (∃ id ∈ p.ids, d.capacity ≤ id.toNat) ∨
      ∀ id ∈ p.ids, ∀ loc, d.entry id = some loc → loc.patch ≠ p.id) ∧
    (p.openBoxes = 0 → (∀ id ∈ p.ids, id.toNat < d.capacity) →
      ((∃ id ∈ atoms.map Atom.id, d.capacity ≤ id.toNat ∧
          e = .refused (.outOfRange id d.capacity)) ∨
        p.id = PatchId.reserved ∧ e = .fault .reservedPatch) ∧
      ∀ id, d'.entry id =
        if id ∈ p.ids then (d.entry id).filter (fun loc => loc.patch ≠ p.id) else d.entry id) := by
  have hall := replacement d p atoms
  rw [h] at hall
  cases hall with
  | busy opened =>
    refine ⟨rfl, rfl, rfl, iff_of_true rfl (.inl opened), ?_⟩
    exact fun closed => absurd closed opened
  | stray closed listed beyond =>
    refine ⟨rfl, rfl, rfl, iff_of_true rfl (.inr (.inl ⟨_, listed, beyond⟩)), ?_⟩
    exact fun _ known => absurd (known _ listed) (Nat.not_lt.mpr beyond)
  | misfit closed known listed beyond =>
    refine ⟨rfl, d.capacity_released .., rfl, released_eq_self_of_closed closed known, ?_⟩
    exact fun _ _ => ⟨.inl ⟨_, listed, beyond, rfl⟩, d.entry_released p.id p.ids⟩
  | reserved closed known reserved =>
    refine ⟨rfl, d.capacity_released .., rfl, released_eq_self_of_closed closed known, ?_⟩
    exact fun _ _ => ⟨.inr ⟨reserved, rfl⟩, d.entry_released p.id p.ids⟩

/-- A patch with particles 1 and 2 that is to get particle 9, where only four fit: both are lost. -/
theorem replaceAtoms_failure_of_two :
    let first := replaceAtoms (.allocate 4) (new ⟨0⟩ 0 false) [⟨1, Vec3.zero⟩, ⟨2, Vec3.zero⟩]
    let second := replaceAtoms first.2.1 first.2.2 [⟨9, Vec3.zero⟩]
    second = (.error (.refused (.outOfRange 9 4)), second.2.1, second.2.2) ∧
    second.2.2 = first.2.2 ∧ second.2.1 ≠ first.2.1 ∧
    first.2.1.entry 2 = some ⟨⟨0⟩, 1⟩ ∧ second.2.1.entry 2 = none := by
  intro first second
  have hfail : second = (.error (.refused (.outOfRange 9 4)), second.2.1, second.2.2) := rfl
  obtain ⟨hpatch, -, -, hsame, hlost⟩ := replaceAtoms_failure hfail
  have hentry : first.2.1.entry 2 = some ⟨⟨0⟩, 1⟩ := by decide
  have hknown : ∀ id ∈ first.2.2.ids, id.toNat < first.2.1.capacity := by
    have hids : first.2.2.ids = [1, 2] := rfl
    have hcapacity : first.2.1.capacity = 4 := rfl
    rw [hids, hcapacity]
    simp
  refine ⟨hfail, hpatch, ?_, hentry, ?_⟩
  · intro hkept
    rcases hsame.mp hkept with hopen | ⟨id, hid, hbeyond⟩ | hnothing
    · exact hopen rfl
    · exact Nat.not_lt.mpr hbeyond (hknown id hid)
    · exact hnothing 2 (by decide) _ hentry rfl
  · rw [(hlost rfl hknown).2 2, hentry]
    decide

/-- A patch that gets a particle, and is then refused another one that does not fit, still lists the
first particle, which is found no more. -/
theorem refused_replacement_loses_particle :
    let first := replaceAtoms (.allocate 4) (new ⟨0⟩ 0 false) [⟨1, Vec3.zero⟩]
    let second := replaceAtoms first.2.1 first.2.2 [⟨9, Vec3.zero⟩]
    first.1 = .ok () ∧ first.2.1.lookup 1 = .ok ⟨⟨0⟩, 0⟩ ∧
    second.1 = .error (.refused (.outOfRange 9 4)) ∧ second.2.2.ids = [1] ∧
    second.2.1.lookup 1 = .error (.unassigned 1) :=
  ⟨rfl, rfl, rfl, rfl, rfl⟩

end Patch

end PatchDynamics
