import Mathlib.Data.List.Induction
import Mathlib.Data.List.Pairwise
import PatchDynamics.Proofs.Assembly.Calls
import PatchDynamics.Proofs.Directory.Replacement
import PatchDynamics.Proofs.Trace

/-!
# Migration

Every patch of an assembly gets a new list of atoms, one patch after the other. A particle that
moves may be entered for its new patch before or after its old one gives it up. In either order it
ends where the new lists have it, because a patch gives up only what is still entered for itself:

* `Exchange` — patches that agree with the directory, and new lists for them;
* `Midway` — the invariant, by which patches are done: an entry is where a new list of a patch that
  is done has the particle, or else where an old list of a patch that is not done has it;
* `Midway.step` — the replacement of one more list succeeds and keeps it;
* `migration_order_independent` — the directory at the end is the same for all orders.
-/

namespace PatchDynamics

open Directory (slot placed)

/-- A directory with the entries of some lists has as many of them as the lists have particles. -/
theorem Directory.assigned_of_entries {d : Directory} {l : List Patch}
    {lists : Patch → List ParticleId} (hapart : (l.flatMap lists).Nodup)
    (hentries : ∀ n loc, slot d.table n = some loc ↔
      ∃ p ∈ l, placed p.id 0 (lists p) n = some loc) :
    d.assigned = (l.flatMap lists).length := by
  refine Directory.assigned_eq_length hapart fun n => ?_
  rw [Option.isSome_iff_exists]
  constructor
  · rintro ⟨loc, hslot⟩
    obtain ⟨p, hp, hplaced⟩ := (hentries n loc).mp hslot
    obtain ⟨-, i, id, hi, rfl, -⟩ := Directory.placed_eq_some hplaced
    exact List.mem_map_of_mem (List.mem_flatMap.mpr ⟨p, hp, List.mem_of_getElem? hi⟩)
  · intro hn
    obtain ⟨id, hid, rfl⟩ := List.mem_map.mp hn
    obtain ⟨p, hp, hid⟩ := List.mem_flatMap.mp hid
    have hsome : placed p.id 0 (lists p) id.toNat ≠ none := by
      rw [Ne, Directory.placed_eq_none_iff, not_not]
      exact List.mem_map_of_mem hid
    obtain ⟨loc, hloc⟩ := Option.ne_none_iff_exists'.mp hsome
    exact ⟨loc, (hentries _ loc).mpr ⟨p, hp, hloc⟩⟩

/-- Patches with different numbers and no open boxes that the directory agrees with, and new lists
that fit and have each particle once. -/
structure Exchange (d : Directory) (l : List Patch) (lists : PatchId → List Atom) : Prop where
  /-- the patches have different numbers -/
  distinct : (l.map Patch.id).Nodup
  /-- the patches may enter particles -/
  unreserved : ∀ p ∈ l, p.id ≠ PatchId.reserved
  /-- no boxes are open -/
  closed : ∀ p ∈ l, p.openBoxes = 0
  /-- the old lists fit -/
  known : ∀ p ∈ l, ∀ id ∈ p.ids, id.toNat < d.capacity
  /-- the entries are those of the old lists -/
  entries : ∀ n loc, slot d.table n = some loc ↔ ∃ p ∈ l, placed p.id 0 p.ids n = some loc
  /-- the new lists fit -/
  fits : ∀ p ∈ l, ∀ id ∈ (lists p.id).map Atom.id, id.toNat < d.capacity
  /-- the new lists have each particle once -/
  apart : (l.flatMap fun p => (lists p.id).map Atom.id).Nodup

/-- What holds of the directory once the patches that are done have their new lists. -/
structure Midway (d₀ : Directory) (l : List Patch) (lists : PatchId → List Atom)
    (done : List PatchId) (d : Directory) : Prop where
  /-- as many particles fit -/
  capacity : d.capacity = d₀.capacity
  /-- only before the first replacement the directory may be cleared -/
  cleared : d.cleared = (d₀.cleared && done.isEmpty)
  /-- an entry is from a new list of a patch that is done, or else from an old list of another -/
  entries : ∀ n loc, slot d.table n = some loc ↔
    (∃ p ∈ l, p.id ∈ done ∧ placed p.id 0 ((lists p.id).map Atom.id) n = some loc) ∨
    (∀ p ∈ l, p.id ∈ done → placed p.id 0 ((lists p.id).map Atom.id) n = none) ∧
      ∃ p ∈ l, p.id ∉ done ∧ placed p.id 0 p.ids n = some loc

namespace Exchange

variable {d₀ d : Directory} {l : List Patch} {lists : PatchId → List Atom} {done : List PatchId}
  {p q : Patch} {n : Nat} {loc : Location}

/-- Only one of the new lists has a particle. -/
theorem placed_eq_none_of_ne (h : Exchange d₀ l lists) (hp : p ∈ l) (hq : q ∈ l) (hne : q.id ≠ p.id)
    (hplaced : placed p.id 0 ((lists p.id).map Atom.id) n = some loc) :
    placed q.id 0 ((lists q.id).map Atom.id) n = none := by
  obtain ⟨-, i, id, hi, rfl, -⟩ := Directory.placed_eq_some hplaced
  rw [Directory.placed_eq_none_iff]
  intro hmem
  obtain ⟨id', hid', hsame⟩ := List.mem_map.mp hmem
  obtain rfl := UInt32.toNat_inj.mp hsame
  -- the lists of two patches have no particle in common
  have hqp : q ≠ p := fun heq => hne (congrArg Patch.id heq)
  have hsymm : Std.Symm (Function.onFun List.Disjoint fun p : Patch => (lists p.id).map Atom.id) :=
    ⟨fun _ _ hdisjoint => hdisjoint.symm⟩
  exact (List.nodup_flatMap.mp h.apart).2.forall hq hp hqp hid' (List.mem_of_getElem? hi)

theorem midway_nil (h : Exchange d₀ l lists) : Midway d₀ l lists [] d₀ where
  capacity := rfl
  cleared := by simp
  entries := by
    intro n loc
    rw [h.entries]
    simp

end Exchange

namespace Midway

variable {d₀ d d' : Directory} {l : List Patch} {lists : PatchId → List Atom}
  {done done' : List PatchId} {p : Patch}

/-- The entries after one more patch, in terms of those before: what still names the patch is from
its old list, which it gives up. -/
theorem slot_exchanged (h : Midway d₀ l lists done d) (hx : Exchange d₀ l lists) (hp : p ∈ l)
    (hnew : p.id ∉ done) (n : Nat) :
    slot (d.exchanged p.id p.ids ((lists p.id).map Atom.id)).table n =
      (placed p.id 0 ((lists p.id).map Atom.id) n).or
        ((slot d.table n).filter fun loc => loc.patch ≠ p.id) := by
  rw [Directory.slot_exchanged (h.capacity ▸ hx.fits p hp)]
  congr 1
  split
  · rfl
  · next hold =>
    cases hslot : slot d.table n with
    | none => rfl
    | some loc =>
      rw [Option.filter_some, if_pos]
      refine decide_eq_true fun hpatch => ?_
      rcases (h.entries n loc).mp hslot with ⟨q, hq, hdone, hplaced⟩ | ⟨-, q, hq, -, hplaced⟩
      · rw [(Directory.placed_eq_some hplaced).1] at hpatch
        exact hnew (hpatch ▸ hdone)
      · rw [(Directory.placed_eq_some hplaced).1] at hpatch
        obtain rfl := List.inj_on_of_nodup_map hx.distinct hq hp hpatch
        rw [Directory.placed_eq_none_iff.mpr hold] at hplaced
        cases hplaced

/-- What one more patch does to the entries. -/
theorem entries_exchanged (h : Midway d₀ l lists done d) (hx : Exchange d₀ l lists) (hp : p ∈ l)
    (hnew : p.id ∉ done) (n : Nat) (loc : Location) :
    slot (d.exchanged p.id p.ids ((lists p.id).map Atom.id)).table n = some loc ↔
      (∃ q ∈ l, q.id ∈ done ++ [p.id] ∧
        placed q.id 0 ((lists q.id).map Atom.id) n = some loc) ∨
      (∀ q ∈ l, q.id ∈ done ++ [p.id] → placed q.id 0 ((lists q.id).map Atom.id) n = none) ∧
        ∃ q ∈ l, q.id ∉ done ++ [p.id] ∧ placed q.id 0 q.ids n = some loc := by
  have hlast : p.id ∈ done ++ [p.id] := by simp
  have hsame : ∀ q ∈ l, q.id = p.id → q = p := fun q hq =>
    List.inj_on_of_nodup_map hx.distinct hq hp
  rw [h.slot_exchanged hx hp hnew]
  cases hcase : placed p.id 0 ((lists p.id).map Atom.id) n with
  | some loc₀ =>
    -- the new list of the patch has the particle, and no other new list has it
    rw [Option.some_or, Option.some.injEq]
    constructor
    · rintro rfl
      exact .inl ⟨p, hp, hlast, hcase⟩
    · rintro (⟨q, hq, -, hplaced⟩ | ⟨hnone, -⟩)
      · by_cases heq : q.id = p.id
        · obtain rfl := hsame q hq heq
          exact Option.some.inj (hcase.symm.trans hplaced)
        · rw [hx.placed_eq_none_of_ne hp hq heq hcase] at hplaced
          cases hplaced
      · rw [hnone p hp hlast] at hcase
        cases hcase
  | none =>
    -- of the other entries, those are gone that name the patch
    rw [Option.none_or, Option.filter_eq_some_iff, decide_eq_true_iff, h.entries]
    constructor
    · rintro ⟨⟨q, hq, hdone, hplaced⟩ | ⟨hnone, q, hq, hold, hplaced⟩, hpatch⟩
      · exact .inl ⟨q, hq, List.mem_append_left _ hdone, hplaced⟩
      · refine .inr ⟨fun r hr hdone => ?_, q, hq, fun hdone => ?_, hplaced⟩
        · rcases List.mem_append.mp hdone with hdone | hdone
          · exact hnone r hr hdone
          · obtain rfl := hsame r hr (List.mem_singleton.mp hdone)
            exact hcase
        · rcases List.mem_append.mp hdone with hdone | hdone
          · exact hold hdone
          · exact hpatch ((Directory.placed_eq_some hplaced).1.trans (List.mem_singleton.mp hdone))
    · rintro (⟨q, hq, hdone, hplaced⟩ | ⟨hnone, q, hq, hold, hplaced⟩)
      · have hpatch := (Directory.placed_eq_some hplaced).1
        rcases List.mem_append.mp hdone with hdone | hdone
        · exact ⟨.inl ⟨q, hq, hdone, hplaced⟩, fun heq => hnew (heq ▸ hpatch ▸ hdone)⟩
        · obtain rfl := hsame q hq (List.mem_singleton.mp hdone)
          rw [hcase] at hplaced
          cases hplaced
      · rw [List.mem_append, not_or, List.mem_singleton] at hold
        refine ⟨.inr ⟨fun r hr hdone => hnone r hr (List.mem_append_left _ hdone), q, hq, hold.1,
          hplaced⟩, ?_⟩
        rw [(Directory.placed_eq_some hplaced).1]
        exact hold.2

/-- **One more patch**: its replacement succeeds, and the invariant holds with the patch done. -/
theorem step (h : Midway d₀ l lists done d) (hx : Exchange d₀ l lists) (hp : p ∈ l)
    (hnew : p.id ∉ done) :
    ∃ d', p.replaceAtoms d (lists p.id) = (.ok (), d', p.replaced (lists p.id)) ∧
      Midway d₀ l lists (done ++ [p.id]) d' := by
  refine ⟨d.exchanged p.id p.ids ((lists p.id).map Atom.id), ?_, ?_, ?_, ?_⟩
  · exact Patch.replaceAtoms_of_fits (hx.closed p hp) (h.capacity ▸ hx.known p hp)
      (h.capacity ▸ hx.fits p hp) (hx.unreserved p hp)
  · rw [Directory.capacity_exchanged, h.capacity]
  · simp [Directory.exchanged]
  · exact h.entries_exchanged hx hp hnew

/-- The directory depends on which patches are done, and not on their order. -/
theorem unique (h : Midway d₀ l lists done d) (h' : Midway d₀ l lists done' d')
    (hsame : ∀ id, id ∈ done ↔ id ∈ done') : d = d' := by
  have htable : d.table = d'.table := by
    refine Directory.table_ext (h.capacity.trans h'.capacity.symm) fun n => ?_
    refine Option.ext fun loc => ?_
    rw [h.entries, h'.entries]
    simp only [hsame]
  have hempty : done.isEmpty = done'.isEmpty := by
    rw [Bool.eq_iff_iff, List.isEmpty_iff, List.isEmpty_iff, List.eq_nil_iff_forall_not_mem,
      List.eq_nil_iff_forall_not_mem]
    simp only [hsame]
  have hcleared : d.cleared = d'.cleared := by rw [h.cleared, h'.cleared, hempty]
  cases d
  cases d'
  cases htable
  cases hcleared
  rfl

/-- A directory with entries is not cleared. -/
theorem cleared_of_slot (h : Midway d₀ l lists done d) (hx : Exchange d₀ l lists) (htidy : d₀.Tidy)
    {n : Nat} {loc : Location} (hslot : slot d.table n = some loc) : d.cleared = false := by
  rw [h.cleared, Bool.and_eq_false_iff]
  by_cases hdone : done = []
  · -- nothing is done, so the entry is from an old list, and was there before
    subst hdone
    left
    rcases (h.entries n loc).mp hslot with ⟨q, -, hdone, -⟩ | ⟨-, q, hq, -, hplaced⟩
    · cases hdone
    · by_contra hcleared
      rw [Bool.not_eq_false] at hcleared
      have hfirst := (hx.entries n loc).mpr ⟨q, hq, hplaced⟩
      rw [htidy.clean hcleared] at hfirst
      cases hfirst
  · exact .inr (by simpa using hdone)

theorem tidy (h : Midway d₀ l lists done d) (hx : Exchange d₀ l lists) (htidy : d₀.Tidy) :
    d.Tidy where
  clean := by
    intro hcleared n
    refine Option.eq_none_iff_forall_ne_some.mpr fun loc hslot => ?_
    rw [h.cleared_of_slot hx htidy hslot] at hcleared
    cases hcleared
  numbered := by
    intro n loc hslot
    rcases (h.entries n loc).mp hslot with ⟨q, -, -, hplaced⟩ | ⟨-, q, -, -, hplaced⟩
    all_goals
      obtain ⟨-, i, id, -, rfl, -⟩ := Directory.placed_eq_some hplaced
      exact id.toNat_lt

/-- Where a particle is found once some patches are done. -/
theorem lookup_eq_ok_iff (h : Midway d₀ l lists done d) (hx : Exchange d₀ l lists)
    (htidy : d₀.Tidy) (hold : ∀ p ∈ l, p.ids.Nodup) (id : ParticleId) (loc : Location) :
    d.lookup id = .ok loc ↔
      (∃ p ∈ l, p.id ∈ done ∧ p.id = loc.patch ∧
        ((lists p.id).map Atom.id)[loc.index.toNat]? = some id) ∨
      (∀ p ∈ l, p.id ∈ done → id ∉ (lists p.id).map Atom.id) ∧
        ∃ p ∈ l, p.id ∉ done ∧ p.id = loc.patch ∧ p.ids[loc.index.toNat]? = some id := by
  have hnew : ∀ p ∈ l, ((lists p.id).map Atom.id).Nodup := (List.nodup_flatMap.mp hx.apart).1
  rw [Directory.lookup_eq_ok_iff, ← Directory.slot_toNat,
    and_iff_right_of_imp fun hslot => h.cleared_of_slot hx htidy hslot, h.entries]
  refine or_congr ?_ (and_congr ?_ ?_)
  · refine exists_congr fun p => and_congr_right fun hp => and_congr_right fun _ => ?_
    rw [Directory.placed_eq_some_iff (hnew p hp), eq_comm]
  · refine forall₃_congr fun p _ _ => ?_
    rw [Directory.placed_eq_none_iff, List.mem_map_of_injective fun _ _ => UInt32.toNat_inj.mp]
  · refine exists_congr fun p => and_congr_right fun hp => and_congr_right fun _ => ?_
    rw [Directory.placed_eq_some_iff (hold p hp), eq_comm]

/-- Once all patches are done, there are as many entries as the new lists have particles. -/
theorem assigned_eq (h : Midway d₀ l lists done d) (hx : Exchange d₀ l lists)
    (hall : ∀ p ∈ l, p.id ∈ done) :
    d.assigned = (l.flatMap fun p => (lists p.id).map Atom.id).length := by
  refine Directory.assigned_of_entries hx.apart fun n loc => ?_
  rw [h.entries]
  constructor
  · rintro (⟨p, hp, -, hplaced⟩ | ⟨-, p, hp, hnot, -⟩)
    · exact ⟨p, hp, hplaced⟩
    · exact absurd (hall p hp) hnot
  · rintro ⟨p, hp, hplaced⟩
    exact .inl ⟨p, hp, hall p hp, hplaced⟩

end Midway

/-! ## Replacements in an assembly -/

namespace Assembly

variable {s : Assembly} {lists : PatchId → List Atom}

/-- The directory of an assembly agrees with its patches: no particle is listed twice, and a
particle is found exactly where a patch lists it. -/
structure Agrees (s : Assembly) : Prop where
  /-- no particle is listed twice -/
  apart : (s.patches.flatMap Patch.ids).Nodup
  /-- particles are found where patches list them -/
  found : ∀ id loc, s.directory.lookup id = .ok loc ↔
    ∃ p ∈ s.patches, p.id = loc.patch ∧ p.ids[loc.index.toNat]? = some id

/-- An empty directory agrees with empty patches. -/
theorem agrees_of_empty (hpatches : ∀ p ∈ s.patches, p.ids = [])
    (hslots : ∀ n, slot s.directory.table n = none) : s.Agrees where
  apart := by
    rw [List.flatMap_eq_nil_iff.mpr hpatches]
    exact List.nodup_nil
  found := by
    intro id loc
    rw [Directory.lookup_eq_ok_iff, ← Directory.slot_toNat, hslots]
    constructor
    · rintro ⟨-, hnone⟩
      cases hnone
    · rintro ⟨p, hp, -, hindex⟩
      rw [hpatches p hp] at hindex
      cases hindex

theorem Agrees.nodup (h : s.Agrees) {p : Patch} (hp : p ∈ s.patches) : p.ids.Nodup :=
  (List.nodup_flatMap.mp h.apart).1 p hp

/-- Where the directory agrees with the patches, its entries are those of their lists. -/
theorem Agrees.entries (h : s.Agrees) (htidy : s.directory.Tidy) (n : Nat) (loc : Location) :
    slot s.directory.table n = some loc ↔ ∃ p ∈ s.patches, placed p.id 0 p.ids n = some loc := by
  constructor
  · intro hslot
    have hcleared : s.directory.cleared = false := by
      by_contra hcleared
      rw [htidy.clean (Bool.not_eq_false _ ▸ hcleared)] at hslot
      cases hslot
    obtain ⟨id, rfl⟩ : ∃ id : ParticleId, id.toNat = n :=
      ⟨.ofNat n, UInt32.toNat_ofNat_of_lt' (htidy.numbered n loc hslot)⟩
    obtain ⟨p, hp, hpatch, hindex⟩ :=
      (h.found id loc).mp (Directory.lookup_eq_ok_iff.mpr ⟨hcleared, hslot⟩)
    exact ⟨p, hp, (Directory.placed_eq_some_iff (h.nodup hp)).mpr ⟨hpatch.symm, hindex⟩⟩
  · rintro ⟨p, hp, hplaced⟩
    obtain ⟨-, i, id, hi, rfl, -⟩ := Directory.placed_eq_some hplaced
    obtain ⟨hpatch, hindex⟩ := (Directory.placed_eq_some_iff (h.nodup hp)).mp hplaced
    have hfound := (h.found id loc).mpr ⟨p, hp, hpatch.symm, hindex⟩
    exact (Directory.lookup_eq_ok_iff.mp hfound).2

/-- Where the directory agrees with the patches, all particles fit. -/
theorem Agrees.known (h : s.Agrees) (htidy : s.directory.Tidy) {p : Patch} (hp : p ∈ s.patches)
    {id : ParticleId} (hid : id ∈ p.ids) : id.toNat < s.directory.capacity := by
  have hsome : placed p.id 0 p.ids id.toNat ≠ none := by
    rw [Ne, Directory.placed_eq_none_iff, not_not]
    exact List.mem_map_of_mem hid
  obtain ⟨loc, hloc⟩ := Option.ne_none_iff_exists'.mp hsome
  exact Directory.lt_size_of_slot ((h.entries htidy _ loc).mpr ⟨p, hp, hloc⟩)

/-- Patches that the directory agrees with may exchange their particles. -/
theorem Agrees.exchange (h : s.Agrees) (htidy : s.directory.Tidy) (hdistinct : s.patchIds.Nodup)
    (hreserved : PatchId.reserved ∉ s.patchIds) (hclosed : ∀ p ∈ s.patches, p.openBoxes = 0)
    (hfits : ∀ patch ∈ s.patchIds, ∀ a ∈ lists patch, a.id.toNat < s.directory.capacity)
    (hapart : ((s.patchIds.flatMap lists).map Atom.id).Nodup) :
    Exchange s.directory s.patches lists where
  distinct := hdistinct
  unreserved := fun p hp heq => hreserved (heq ▸ List.mem_map_of_mem hp)
  closed := hclosed
  known := fun p hp id hid => h.known htidy hp hid
  entries := h.entries htidy
  fits := by
    intro p hp id hid
    obtain ⟨a, ha, rfl⟩ := List.mem_map.mp hid
    exact hfits p.id (List.mem_map_of_mem hp) a ha
  apart := by
    rwa [patchIds, List.map_flatMap, List.flatMap_map] at hapart

/-- The outcome of giving a patch its new list. -/
def replacing (lists : PatchId → List Atom) (s : Assembly) (id : PatchId) :
    Option (Except Failure Unit) := (s.replaceAtoms id (lists id)).map Prod.fst

/-- The assembly after giving a patch its new list. -/
def afterReplacing (lists : PatchId → List Atom) (s : Assembly) (id : PatchId) : Assembly :=
  ((s.replaceAtoms id (lists id)).map Prod.snd).getD s

/-- A replacement on an assembly whose patches are known. -/
theorem replaceAtoms_eq {l : List Patch} {state : Patch → Patch} {p new : Patch}
    {atoms : List Atom} {outcome : Except Failure Unit} {d : Directory}
    (hpatches : s.patches = l.map state) (hid : ∀ q ∈ l, (state q).id = q.id)
    (nodup : (l.map Patch.id).Nodup) (hp : p ∈ l)
    (hreply : (state p).replaceAtoms s.directory atoms = (outcome, d, new)) :
    s.replaceAtoms p.id atoms =
      some (outcome, { s with patches := putPatch l state p new, directory := d }) := by
  rw [replaceAtoms, hpatches, changeFirst_map hid nodup hp, hreply]
  rfl

/-- A patch in the midst of a migration. -/
def migrated (lists : PatchId → List Atom) (done : List PatchId) (p : Patch) : Patch :=
  if p.id ∈ done then p.replaced (lists p.id) else p

@[simp] theorem id_migrated (done : List PatchId) (p : Patch) :
    (migrated lists done p).id = p.id := by
  unfold migrated
  split <;> rfl

theorem putPatch_migrated {l : List Patch} {done : List PatchId} {p : Patch}
    (nodup : (l.map Patch.id).Nodup) (hp : p ∈ l) :
    putPatch l (migrated lists done) p (p.replaced (lists p.id)) =
      l.map (migrated lists (done ++ [p.id])) := by
  refine List.map_congr_left fun q hq => ?_
  by_cases heq : q.id = p.id
  · obtain rfl := List.inj_on_of_nodup_map nodup hq hp heq
    simp [migrated]
  · simp [migrated, heq]

/-- **A migration under way**: all replacements have succeeded, and the invariant holds. -/
theorem midway_of_order (hx : Exchange s.directory s.patches lists) {order : List PatchId}
    (hnodup : order.Nodup) (hpatches : ∀ id ∈ order, id ∈ s.patchIds) :
    trace (afterReplacing lists) (replacing lists) s order =
      order.map (fun _ => some (.ok ())) ∧
    ∃ d, Midway s.directory s.patches lists order d ∧
      order.foldl (afterReplacing lists) s =
        { s with directory := d, patches := s.patches.map (migrated lists order) } := by
  induction order using List.reverseRecOn with
  | nil =>
    refine ⟨rfl, s.directory, hx.midway_nil, ?_⟩
    have hsame : migrated lists [] = id := funext fun p => if_neg List.not_mem_nil
    rw [hsame, List.map_id]
    rfl
  | append_singleton order id ih =>
    obtain ⟨hnodup, -, hlast⟩ := List.nodup_append.mp hnodup
    have hnew : id ∉ order := fun hid => hlast id hid id (by simp) rfl
    obtain ⟨htrace, d, hmidway, hstate⟩ :=
      ih hnodup fun id hid => hpatches id (List.mem_append_left _ hid)
    obtain ⟨p, hp, rfl⟩ := List.mem_map.mp (hpatches id (by simp))
    obtain ⟨d', hreply, hmidway'⟩ := hmidway.step hx hp hnew
    -- the patch is still as it was at the start
    have hself : migrated lists order p = p := if_neg hnew
    have hcall : (order.foldl (afterReplacing lists) s).replaceAtoms p.id (lists p.id) =
        some (.ok (), { s with
          directory := d', patches := s.patches.map (migrated lists (order ++ [p.id])) }) := by
      rw [hstate, ← putPatch_migrated hx.distinct hp]
      exact replaceAtoms_eq rfl (fun q _ => id_migrated order q) hx.distinct hp
        (hself.symm ▸ hreply)
    refine ⟨?_, d', hmidway', ?_⟩
    · rw [trace_append, htrace, trace, trace, replacing, hcall, List.map_append]
      rfl
    · rw [List.foldl_append, List.foldl_cons, List.foldl_nil, afterReplacing, hcall]
      rfl

/-- **Migration does not depend on the order.** Take an assembly whose patches have different
numbers and no open boxes, with a directory that agrees with them, and a new list of atoms for each
patch, all of which fit and no particle of which is listed twice. There is one directory that every
order of replacing the lists leads to: in it a particle is found exactly where a new list has it,
and it has as many entries as there are particles. In every order each replacement succeeds. Between
two of them a particle is found where the new list of a patch that is done has it, and if there is
no such list where the old list of a patch that is not done has it; so a particle that moves may be
listed by two patches meanwhile, or by none. -/
theorem migration_order_independent (hdirectory : s.directory.Reached)
    (hdistinct : s.patchIds.Nodup) (hreserved : PatchId.reserved ∉ s.patchIds)
    (hclosed : ∀ p ∈ s.patches, p.openBoxes = 0) (hagrees : s.Agrees)
    (hfits : ∀ patch ∈ s.patchIds, ∀ a ∈ lists patch, a.id.toNat < s.directory.capacity)
    (hapart : ((s.patchIds.flatMap lists).map Atom.id).Nodup) :
    ∃ d : Directory,
      (∀ id loc, d.lookup id = .ok loc ↔ loc.patch ∈ s.patchIds ∧
        ((lists loc.patch).map Atom.id)[loc.index.toNat]? = some id) ∧
      d.census.assigned = (s.patchIds.flatMap lists).length ∧
      ∀ order : List PatchId, order.Perm s.patchIds →
        trace (afterReplacing lists) (replacing lists) s order =
          order.map (fun _ => some (.ok ())) ∧
        order.foldl (afterReplacing lists) s =
          { s with
            directory := d
            patches := s.patches.map fun p => p.replaced (lists p.id) } ∧
        (order.foldl (afterReplacing lists) s).Agrees ∧
        ∀ early late, order = early ++ late →
          let midway := early.foldl (afterReplacing lists) s
          midway.patches =
            s.patches.map (fun p => if p.id ∈ early then p.replaced (lists p.id) else p) ∧
          ∀ id loc, midway.directory.lookup id = .ok loc ↔
            (∃ p ∈ s.patches, p.id ∈ early ∧ p.id = loc.patch ∧
              ((lists p.id).map Atom.id)[loc.index.toNat]? = some id) ∨
            (∀ p ∈ s.patches, p.id ∈ early → id ∉ (lists p.id).map Atom.id) ∧
              ∃ p ∈ s.patches, p.id ∉ early ∧ p.id = loc.patch ∧
                p.ids[loc.index.toNat]? = some id := by
  have htidy := hdirectory.tidy
  have hx : Exchange s.directory s.patches lists :=
    hagrees.exchange htidy hdistinct hreserved hclosed hfits hapart
  obtain ⟨-, d, hd, -⟩ := midway_of_order hx hdistinct fun _ hid => hid
  have hall : ∀ p ∈ s.patches, p.id ∈ s.patchIds := fun p hp => List.mem_map_of_mem hp
  -- all patches are done, so only new lists count
  have hfound : ∀ id loc, d.lookup id = .ok loc ↔
      ∃ p ∈ s.patches, p.id = loc.patch ∧
        ((lists p.id).map Atom.id)[loc.index.toNat]? = some id := by
    intro id loc
    rw [hd.lookup_eq_ok_iff hx htidy (fun p hp => hagrees.nodup hp)]
    constructor
    · rintro (⟨p, hp, -, hhas⟩ | ⟨-, p, hp, hnot, -⟩)
      · exact ⟨p, hp, hhas⟩
      · exact absurd (hall p hp) hnot
    · rintro ⟨p, hp, hhas⟩
      exact .inl ⟨p, hp, hall p hp, hhas⟩
  refine ⟨d, ?_, ?_, ?_⟩
  · intro id loc
    rw [hfound]
    constructor
    · rintro ⟨p, hp, hpatch, hindex⟩
      exact hpatch ▸ ⟨hall p hp, hindex⟩
    · rintro ⟨hpatch, hindex⟩
      obtain ⟨p, hp, heq⟩ := List.mem_map.mp hpatch
      exact ⟨p, hp, heq, heq ▸ hindex⟩
  · rw [Directory.census, hd.assigned_eq hx hall, patchIds, List.flatMap_map]
    simp only [List.length_flatMap, List.length_map]
  · intro order horder
    obtain ⟨htrace, d', hd', hstate⟩ :=
      midway_of_order hx (horder.nodup_iff.mpr hdistinct) fun id hid => horder.mem_iff.mp hid
    obtain rfl := hd'.unique hd fun _ => horder.mem_iff
    have hpatches : s.patches.map (migrated lists order) =
        s.patches.map fun p => p.replaced (lists p.id) :=
      List.map_congr_left fun p hp => if_pos (horder.mem_iff.mpr (hall p hp))
    rw [hpatches] at hstate
    refine ⟨htrace, hstate, ?_, ?_⟩
    · rw [hstate]
      refine ⟨?_, fun id loc => ?_⟩
      · rw [List.flatMap_map]
        exact hx.apart
      · rw [hfound]
        simp only [List.mem_map, exists_exists_and_eq_and]
        rfl
    · rintro early late rfl
      have hearly := (List.nodup_append.mp (horder.nodup_iff.mpr hdistinct)).1
      obtain ⟨-, d₁, hd₁, hmidway⟩ :=
        midway_of_order hx hearly fun id hid => horder.mem_iff.mp (List.mem_append_left _ hid)
      rw [hmidway]
      exact ⟨rfl, hd₁.lookup_eq_ok_iff hx htidy fun p hp => hagrees.nodup hp⟩

/-- Particle 1 moves from the first patch to the second. In one order nobody has it meanwhile, in
the other order both have it, and both orders lead to the same directory. -/
theorem migration_order_independent_pair :
    let old : PatchId → List Atom := fun id =>
      if id = ⟨0⟩ then [⟨1, Vec3.zero⟩, ⟨2, Vec3.zero⟩] else [⟨3, Vec3.zero⟩]
    let new : PatchId → List Atom := fun id =>
      if id = ⟨0⟩ then [⟨2, Vec3.zero⟩] else [⟨3, Vec3.zero⟩, ⟨1, Vec3.zero⟩]
    let s := [⟨0⟩, ⟨1⟩].foldl (afterReplacing old) (build ⟨4, 0, true, 4⟩ [⟨0⟩, ⟨1⟩])
    let released := afterReplacing new s ⟨0⟩
    let claimed := afterReplacing new s ⟨1⟩
    (released.patches.map Patch.ids = [[2], [3]] ∧
      released.directory.lookup 1 = .error (.unassigned 1)) ∧
    (claimed.patches.map Patch.ids = [[1, 2], [3, 1]] ∧
      claimed.directory.lookup 1 = .ok ⟨⟨1⟩, 1⟩) ∧
    ([⟨0⟩, ⟨1⟩].foldl (afterReplacing new) s).directory =
      ([⟨1⟩, ⟨0⟩].foldl (afterReplacing new) s).directory ∧
    ([⟨0⟩, ⟨1⟩].foldl (afterReplacing new) s).directory.lookup 1 = .ok ⟨⟨1⟩, 1⟩ := by
  intro old new s released claimed
  -- the assembly comes about by a migration of its own
  obtain ⟨_, -, -, hfirst⟩ := @migration_order_independent (build ⟨4, 0, true, 4⟩ [⟨0⟩, ⟨1⟩]) old
    (.allocate 4) (by decide) (by decide) (by decide)
    (agrees_of_empty (by decide) (Directory.slot_replicate_none 4)) (by decide) (by decide)
  have hs : s.Agrees := (hfirst [⟨0⟩, ⟨1⟩] (.refl _)).2.2.1
  have hreached : s.directory.Reached :=
    .register ⟨1⟩ [3] (.unregister ⟨1⟩ [] (.register ⟨0⟩ [1, 2] (.unregister ⟨0⟩ [] (.allocate 4))))
  obtain ⟨d, hd, -, hany⟩ := @migration_order_independent s new hreached (by decide) (by decide)
    (by decide) hs (by decide) (by decide)
  have hreleased := (hany [⟨0⟩, ⟨1⟩] (.refl _)).2.1
  have hclaimed := (hany [⟨1⟩, ⟨0⟩] (.swap ..)).2.1
  refine ⟨by decide +kernel, by decide +kernel, ?_, ?_⟩
  · rw [hreleased, hclaimed]
  · rw [hreleased]
    exact (hd 1 ⟨⟨1⟩, 1⟩).mpr (by decide +kernel)

end Assembly

end PatchDynamics
