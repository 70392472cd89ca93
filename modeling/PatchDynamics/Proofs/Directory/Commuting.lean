import PatchDynamics.Proofs.Directory.Entries
import PatchDynamics.Proofs.Trace

/-!
# Updates of different patches commute

Several patches enter lists and give lists up in one directory, and nothing says in which order they
come. Where their particles are different, the order makes no difference, although every entering
lifts a clearing for all of them, and although what a patch is told when it gives a list up depends
on whose entries are in the table:

* `Update`, `Update.apply` — a list that a patch enters or gives up;
* `onSlot` — what an accepted update makes of one entry, whatever the table;
* `own` — the part of an entry that an update looks at when it counts;
* `Independent` — two patches with different particles, or two that only give up;
* `Interleaves` — a run in which each patch makes certain updates in order.

The main statement is `updates_commute`.
-/

namespace PatchDynamics

namespace Directory

/-! ## Updates -/

/-- A list that a patch enters or gives up. -/
structure Update where
  /-- whether the list is entered -/
  enters : Bool
  /-- the patch -/
  patch : PatchId
  /-- the list -/
  ids : List ParticleId
  deriving DecidableEq

/-- Makes an update. -/
def Update.apply (u : Update) (d : Directory) : Except Failure Nat × Directory :=
  if u.enters then d.register u.patch u.ids else d.unregister u.patch u.ids

/-- The directory after some updates. -/
def updated (d : Directory) (updates : List Update) : Directory :=
  updates.foldl (fun d u => (u.apply d).2) d

/-- What the patches are told, each update with its answer. -/
def answers : Directory → List Update → List (Update × Except Failure Nat) :=
  trace (fun d u => (u.apply d).2) fun d u => (u, (u.apply d).1)

/-- Two updates of different patches, of different particles unless both only give up. -/
structure Independent (a b : Update) : Prop where
  /-- the patches are different -/
  patches : a.patch ≠ b.patch
  /-- and so are the particles, where one of the lists is entered -/
  ids : a.ids.Disjoint b.ids ∨ a.enters = false ∧ b.enters = false

theorem Independent.symm {a b : Update} (h : Independent a b) : Independent b a :=
  ⟨h.patches.symm, h.ids.imp List.Disjoint.symm And.symm⟩

/-- A run in which each patch makes certain updates, in order. -/
def Interleaves (calls : PatchId → List Update) (run : List Update) : Prop :=
  ∀ p, run.filter (fun u => u.patch = p) = calls p

variable {d : Directory} {a b u : Update} {patch : PatchId} {ids : List ParticleId}
  {id : ParticleId} {n : Nat}

/-! ## One entry -/

namespace Update

/-- The directory takes the update: all numbers fit, and the reserved patch enters nothing. -/
def Accepted (u : Update) (d : Directory) : Prop :=
  (∀ id ∈ u.ids, id.toNat < d.capacity) ∧ (u.enters → u.patch ≠ PatchId.reserved)

/-- What an update that is taken makes of an entry. -/
def onSlot (u : Update) (n : Nat) (entry : Option Location) : Option Location :=
  if u.enters then (placed u.patch 0 u.ids n).or entry
  else if n ∈ u.ids.map UInt32.toNat then entry.filter (fun loc => loc.patch ≠ u.patch) else entry

/-- An update is taken, or it is refused in a way that only the capacity decides. -/
theorem apply_cases (u : Update) (d : Directory) :
    u.Accepted d ∧ (∀ n, slot (u.apply d).2.table n = u.onSlot n (slot d.table n)) ∧
        (u.apply d).2.cleared = (!u.enters && d.cleared) ∨
      ¬ u.Accepted d ∧ (u.apply d).2 = d := by
  obtain ⟨enters, patch, ids⟩ := u
  cases enters with
  | true =>
    have hall := d.registration patch ids
    rw [apply, if_pos rfl]
    dsimp only
    generalize d.register patch ids = result at hall
    cases hall with
    | misfit listed beyond =>
      exact .inr ⟨fun h => absurd (h.1 _ listed) (Nat.not_lt_of_le beyond), rfl⟩
    | reserved reserved => exact .inr ⟨fun h => h.2 rfl reserved, rfl⟩
    | entered fits unreserved =>
      exact .inl ⟨⟨fits, fun _ => unreserved⟩, fun n => slot_putAll patch 0 n fits, rfl⟩
  | false =>
    have hall := d.release patch ids
    rw [apply, if_neg Bool.false_ne_true]
    dsimp only
    generalize d.unregister patch ids = result at hall
    cases hall with
    | misfit listed beyond =>
      exact .inr ⟨fun h => absurd (h.1 _ listed) (Nat.not_lt_of_le beyond), rfl⟩
    | released fits count =>
      exact .inl ⟨⟨fits, nofun⟩, d.slot_released patch ids, rfl⟩

@[simp] theorem capacity_apply (u : Update) (d : Directory) :
    (u.apply d).2.capacity = d.capacity := by
  rw [apply]
  split
  · exact capacity_register ..
  · exact capacity_unregister ..

/-- An update leaves the capacity, and with it what is taken. -/
theorem accepted_apply : b.Accepted (a.apply d).2 ↔ b.Accepted d := by
  rw [Accepted, capacity_apply, Accepted]

theorem onSlot_of_not_mem (h : n ∉ u.ids.map UInt32.toNat) (entry : Option Location) :
    u.onSlot n entry = entry := by
  rw [onSlot, if_neg h]
  split
  · rw [placed_eq_none_iff.mpr h, Option.none_or]
  · rfl

/-- Particles that are different have different numbers. -/
theorem not_mem_of_disjoint (h : a.ids.Disjoint b.ids) (hn : n ∈ a.ids.map UInt32.toNat) :
    n ∉ b.ids.map UInt32.toNat := by
  intro hn'
  obtain ⟨id, hid, rfl⟩ := List.mem_map.mp hn
  obtain ⟨id', hid', hsame⟩ := List.mem_map.mp hn'
  exact h hid (UInt32.toNat_inj.mp hsame ▸ hid')

/-- **Independent updates of one entry commute.** -/
theorem onSlot_comm (h : Independent a b) (n : Nat) (entry : Option Location) :
    a.onSlot n (b.onSlot n entry) = b.onSlot n (a.onSlot n entry) := by
  by_cases ha : n ∈ a.ids.map UInt32.toNat
  · by_cases hb : n ∈ b.ids.map UInt32.toNat
    · rcases h.ids with hdisjoint | ⟨hgives, hgives'⟩
      · exact absurd hb (not_mem_of_disjoint hdisjoint ha)
      · simp only [onSlot, hgives, hgives', ha, hb, Bool.false_eq_true, if_false, if_true,
          Option.filter_filter, Bool.and_comm]
    · rw [onSlot_of_not_mem hb, onSlot_of_not_mem hb]
  · rw [onSlot_of_not_mem ha, onSlot_of_not_mem ha]

/-- **Independent updates commute**, as far as the directory is concerned. -/
theorem apply_comm (h : Independent a b) (d : Directory) :
    (b.apply (a.apply d).2).2 = (a.apply (b.apply d).2).2 := by
  have hafter := b.apply_cases (a.apply d).2
  have hafter' := a.apply_cases (b.apply d).2
  rw [accepted_apply] at hafter hafter'
  rcases a.apply_cases d with ⟨ha, haslot, hacleared⟩ | ⟨ha, hasame⟩
  · rcases b.apply_cases d with ⟨hb, hbslot, hbcleared⟩ | ⟨hb, hbsame⟩
    · obtain ⟨-, hslot, hcleared⟩ := hafter.resolve_right fun hrefused => hrefused.1 hb
      obtain ⟨-, hslot', hcleared'⟩ := hafter'.resolve_right fun hrefused => hrefused.1 ha
      have htable : (b.apply (a.apply d).2).2.table = (a.apply (b.apply d).2).2.table := by
        refine table_ext ?_ fun n => ?_
        · change Directory.capacity _ = Directory.capacity _
          simp only [capacity_apply]
        · rw [hslot, hslot', haslot, hbslot, onSlot_comm h.symm]
      have hflag : (b.apply (a.apply d).2).2.cleared = (a.apply (b.apply d).2).2.cleared := by
        rw [hcleared, hcleared', hacleared, hbcleared, Bool.and_left_comm]
      exact congrArg₂ Directory.mk htable hflag
    · rw [hbsame, (hafter.resolve_left fun htaken => hb htaken.1).2]
  · rw [hasame, (hafter'.resolve_left fun htaken => ha htaken.1).2]

end Update

/-! ## Counting -/

/-- The entry at a number, if it names the patch. -/
def own (patch : PatchId) (table : Array (Option Location)) (n : Nat) : Option Location :=
  (slot table n).filter fun loc => loc.patch = patch

/-- Giving up a particle counts the entry if it names the patch. -/
theorem fst_dropEntry (patch : PatchId) (state : Nat × Array (Option Location))
    (id : ParticleId) :
    (dropEntry patch state id).1 = state.1 + (own patch state.2 id.toNat).toList.length := by
  obtain ⟨count, table⟩ := state
  rw [dropEntry, own, slot]
  split
  · next loc hget =>
    rw [hget]
    by_cases hpatch : loc.patch = patch <;> simp [hpatch, Option.filter_some]
  · next hnone =>
    cases hget : table[id.toNat]? with
    | none => simp
    | some entry =>
      cases entry with
      | none => simp
      | some loc => exact absurd hget (hnone loc)

theorem own_dropEntry (state : Nat × Array (Option Location)) (id : ParticleId) (n : Nat) :
    own patch (dropEntry patch state id).2 n =
      if id.toNat = n then none else own patch state.2 n := by
  rw [own, slot_dropEntry]
  split
  · rw [Option.filter_filter]
    simp
  · rfl

/-- **What giving a list up counts** depends on the entries that name the patch, and on no
others. -/
theorem fst_foldl_dropEntry_congr {state other : Nat × Array (Option Location)}
    (hcount : state.1 = other.1)
    (h : ∀ id ∈ ids, own patch state.2 id.toNat = own patch other.2 id.toNat) :
    (ids.foldl (dropEntry patch) state).1 = (ids.foldl (dropEntry patch) other).1 := by
  induction ids generalizing state other with
  | nil => exact hcount
  | cons id ids ih =>
    rw [List.forall_mem_cons] at h
    rw [List.foldl_cons, List.foldl_cons]
    refine ih ?_ fun id' hid' => ?_
    · rw [fst_dropEntry, fst_dropEntry, hcount, h.1]
    · rw [own_dropEntry, own_dropEntry, h.2 id' hid']

/-- The answer to an update depends on the capacity, and on what it counts. -/
theorem Update.fst_apply_congr {other : Directory} (hcapacity : other.capacity = d.capacity)
    (h : u.enters = false →
      ∀ id ∈ u.ids, own u.patch other.table id.toNat = own u.patch d.table id.toNat) :
    (u.apply other).1 = (u.apply d).1 := by
  obtain ⟨enters, patch, ids⟩ := u
  have hmisfit : other.firstMisfit ids = d.firstMisfit ids := by
    rw [firstMisfit, firstMisfit, hcapacity]
  cases enters with
  | true =>
    rw [apply, apply, if_pos rfl, if_pos rfl]
    dsimp only
    rw [register, register, hmisfit, hcapacity]
    split
    · rfl
    · split <;> rfl
  | false =>
    rw [apply, apply, if_neg Bool.false_ne_true, if_neg Bool.false_ne_true]
    dsimp only
    rw [unregister, unregister, hmisfit, hcapacity]
    split
    · rfl
    · exact congrArg Except.ok
        (fst_foldl_dropEntry_congr rfl (h rfl))

/-- An update leaves what another patch owns, unless it enters the same particle. -/
theorem Update.own_apply (h : Independent a b) (hid : id ∈ b.ids) :
    own b.patch (a.apply d).2.table id.toNat = own b.patch d.table id.toNat := by
  rcases a.apply_cases d with ⟨-, hslot, -⟩ | ⟨-, hsame⟩
  · rw [own, hslot, own]
    by_cases hmem : id.toNat ∈ a.ids.map UInt32.toNat
    · rcases h.ids with hdisjoint | ⟨hgives', -⟩
      · exact absurd (List.mem_map_of_mem hid) (not_mem_of_disjoint hdisjoint hmem)
      · rw [onSlot, if_neg (by simp [hgives']), if_pos hmem, Option.filter_filter]
        -- an entry that names one patch does not name the other
        refine congrArg (Option.filter · _) (funext fun loc => ?_)
        by_cases hpatch : loc.patch = b.patch
        · simp [hpatch, h.patches.symm]
        · simp [hpatch]
    · rw [onSlot_of_not_mem hmem]
  · rw [hsame]

/-- **Independent updates are answered alike**, whichever comes first. -/
theorem Update.answer_comm (h : Independent a b) (d : Directory) :
    (b.apply (a.apply d).2).1 = (b.apply d).1 :=
  fst_apply_congr (capacity_apply a d) fun _ _ hid => own_apply h hid

/-! ## Runs -/

section Runs

variable {early late run other : List Update} {p : PatchId}

theorem updated_cons (d : Directory) (u : Update) (run : List Update) :
    d.updated (u :: run) = (u.apply d).2.updated run := rfl

theorem answers_cons (d : Directory) (u : Update) (run : List Update) :
    d.answers (u :: run) = (u, (u.apply d).1) :: (u.apply d).2.answers run := rfl

/-- What a patch is told during a run. -/
def told (d : Directory) (run : List Update) (p : PatchId) : List (Update × Except Failure Nat) :=
  (d.answers run).filter fun answer => answer.1.patch = p

theorem told_cons (d : Directory) (u : Update) (run : List Update) (p : PatchId) :
    d.told (u :: run) p =
      if u.patch = p then (u, (u.apply d).1) :: (u.apply d).2.told run p
      else (u.apply d).2.told run p := by
  rw [told, answers_cons, List.filter_cons]
  simp only [decide_eq_true_eq]
  rfl

variable (d late) in
/-- **An update may come first** if it is independent of those before it. -/
theorem moved_first (h : ∀ x ∈ early, Independent x u) :
    d.updated (early ++ u :: late) = d.updated (u :: (early ++ late)) ∧
      ∀ p, d.told (early ++ u :: late) p = d.told (u :: (early ++ late)) p := by
  induction early generalizing d with
  | nil => exact ⟨rfl, fun _ => rfl⟩
  | cons x early ih =>
    rw [List.forall_mem_cons] at h
    obtain ⟨hupdated, htold⟩ := ih (d := (x.apply d).2) h.2
    have hswap := Update.apply_comm h.1 d
    rw [List.cons_append, List.cons_append]
    refine ⟨?_, fun p => ?_⟩
    · rw [updated_cons, hupdated, updated_cons, hswap]
      rfl
    · rw [told_cons, htold, told_cons, told_cons, told_cons, hswap, Update.answer_comm h.1,
        Update.answer_comm h.1.symm]
      by_cases hx : x.patch = p
      · have hu : u.patch ≠ p := fun hu => h.1.patches (hx.trans hu.symm)
        rw [if_neg hu, if_pos hx, if_neg hu]
      · rw [if_neg hx, if_neg hx]

/-- **Runs in which each patch makes the same updates** end in the same directory, and each patch is
told the same. -/
theorem same_of_projections
    (h : ∀ a ∈ run, ∀ b ∈ run, a.patch ≠ b.patch → Independent a b)
    (hsame : ∀ p, run.filter (fun u => u.patch = p) = other.filter fun u => u.patch = p) :
    d.updated run = d.updated other ∧ ∀ p, d.told run p = d.told other p := by
  induction run generalizing d other with
  | nil =>
    have hnone : other = [] := by
      refine List.eq_nil_iff_forall_not_mem.mpr fun u hu => ?_
      have hmem : u ∈ other.filter fun x => x.patch = u.patch :=
        List.mem_filter.mpr ⟨hu, decide_eq_true rfl⟩
      rw [← hsame u.patch] at hmem
      cases hmem
    rw [hnone]
    exact ⟨rfl, fun _ => rfl⟩
  | cons u run ih =>
    -- the first update of this patch in the other run is the same one
    have hself : decide (u.patch = u.patch) = true := decide_eq_true rfl
    have hfirst := hsame u.patch
    rw [List.filter_cons, if_pos hself] at hfirst
    obtain ⟨early, late, rfl, hearly, -, hlate⟩ := List.filter_eq_cons_iff.mp hfirst.symm
    have hothers : ∀ x ∈ early, x.patch ≠ u.patch := by simpa using hearly
    have hmem : ∀ x ∈ early, x ∈ u :: run := by
      intro x hx
      have hmem : x ∈ (early ++ u :: late).filter fun y => y.patch = x.patch :=
        List.mem_filter.mpr ⟨List.mem_append_left _ hx, decide_eq_true rfl⟩
      rw [← hsame x.patch] at hmem
      exact List.mem_of_mem_filter hmem
    obtain ⟨hupdated, htold⟩ := moved_first d late fun x hx =>
      h x (hmem x hx) u List.mem_cons_self (hothers x hx)
    have hrest : ∀ p, run.filter (fun x => x.patch = p) =
        (early ++ late).filter fun x => x.patch = p := by
      intro p
      have hp := hsame p
      rw [List.filter_append] at hp ⊢
      by_cases hu : u.patch = p
      · subst hu
        have hnone : early.filter (fun x => x.patch = u.patch) = [] :=
          List.filter_eq_nil_iff.mpr fun x hx => by simpa using hothers x hx
        rw [hnone, List.nil_append, List.filter_cons, if_pos hself, List.filter_cons,
          if_pos hself] at hp
        rw [hnone, List.nil_append]
        exact (List.cons.inj hp).2
      · have hother : ¬ decide (u.patch = p) = true := fun h => hu (of_decide_eq_true h)
        rwa [List.filter_cons, if_neg hother, List.filter_cons, if_neg hother] at hp
    obtain ⟨hupdated', htold'⟩ := ih (d := (u.apply d).2)
      (fun a ha b hb => h a (List.mem_cons_of_mem _ ha) b (List.mem_cons_of_mem _ hb)) hrest
    refine ⟨?_, fun p => ?_⟩
    · rw [updated_cons, hupdated', hupdated, updated_cons]
    · rw [told_cons, htold', htold, told_cons]

end Runs

/-- **Updates by different patches commute.** Take a directory in whatever state, and two updates of
different patches, with repetitions, and whether or not their numbers fit. If their particles are
different, or if both only give up, then each is answered as if it came first, and the order makes
no difference to the directory, its clearing included.

So take any number of patches, and for each of them any updates in a row, such that updates of
different patches are independent. All runs in which each patch makes its updates in order end in
the same directory, and tell each patch the same. -/
theorem updates_commute (d : Directory) :
    (∀ a b, Independent a b →
      (b.apply (a.apply d).2).1 = (b.apply d).1 ∧ (a.apply (b.apply d).2).1 = (a.apply d).1 ∧
      (b.apply (a.apply d).2).2 = (a.apply (b.apply d).2).2) ∧
    ∀ calls : PatchId → List Update,
      (∀ p q, p ≠ q → ∀ a ∈ calls p, ∀ b ∈ calls q, Independent a b) →
      ∀ run other, Interleaves calls run → Interleaves calls other →
        d.updated run = d.updated other ∧ ∀ p, d.told run p = d.told other p := by
  refine ⟨fun a b h => ?_, fun calls h run other hrun hother => ?_⟩
  · exact ⟨Update.answer_comm h d, Update.answer_comm h.symm d, Update.apply_comm h d⟩
  · have hmem : ∀ u ∈ run, u ∈ calls u.patch := by
      intro u hu
      rw [← hrun u.patch]
      exact List.mem_filter.mpr ⟨hu, decide_eq_true rfl⟩
    refine same_of_projections (fun a ha b hb hne => ?_) fun p => (hrun p).trans (hother p).symm
    exact h a.patch b.patch hne a (hmem a ha) b (hmem b hb)

/-- Patch 1 enters particles of a cleared directory, one of them twice, and then a particle that
does not fit; patch 2 enters another one and gives it up again. -/
theorem updates_commute_refused :
    let d := (allocate 4).clear
    let first : Update := ⟨true, ⟨1⟩, [2, 0, 2]⟩
    let misfit : Update := ⟨true, ⟨1⟩, [3, 9]⟩
    let second : Update := ⟨true, ⟨2⟩, [1]⟩
    let last : Update := ⟨false, ⟨2⟩, [1, 1]⟩
    Independent first last ∧
      (last.apply (first.apply d).2).1 = .ok 0 ∧
      d.updated [first, misfit, second, last] = d.updated [second, first, last, misfit] ∧
      ∀ p, d.told [first, misfit, second, last] p = d.told [second, first, last, misfit] p := by
  intro d first misfit second last
  -- updates of different patches have no particle in common
  have hids : ∀ a ∈ [first, misfit, second, last], ∀ b ∈ [first, misfit, second, last],
      a.patch ≠ b.patch → ∀ id ∈ a.ids, id ∉ b.ids := by
    simp [first, misfit, second, last]
  have hindependent : ∀ a ∈ [first, misfit, second, last], ∀ b ∈ [first, misfit, second, last],
      a.patch ≠ b.patch → Independent a b := fun a ha b hb hne =>
    ⟨hne, .inl (List.disjoint_left.mpr fun id => hids a ha b hb hne id)⟩
  have hother : Independent first last := hindependent _ (by simp) _ (by simp) (by decide)
  obtain ⟨hpair, hruns⟩ := updates_commute d
  refine ⟨hother, (hpair first last hother).1.trans (by decide +kernel), ?_⟩
  refine hruns (fun p => [first, misfit, second, last].filter fun u => u.patch = p) ?_ _ _
    (fun _ => rfl) fun p => ?_
  · intro p q hne a ha b hb
    obtain ⟨ha, hp⟩ := List.mem_filter.mp ha
    obtain ⟨hb, hq⟩ := List.mem_filter.mp hb
    refine hindependent a ha b hb ?_
    rw [of_decide_eq_true hp, of_decide_eq_true hq]
    exact hne
  · by_cases hp : (⟨1⟩ : PatchId) = p
    · subst hp
      decide
    · simp [first, misfit, second, last, List.filter_cons, hp]

end Directory

end PatchDynamics
