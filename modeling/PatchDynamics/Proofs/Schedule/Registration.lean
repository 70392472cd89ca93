import PatchDynamics.Proofs.Directory.Residence
import PatchDynamics.Proofs.Schedule.Round

/-!
# Registration from beginning to end

Tasks that are different computes, each on different patches that are there, can be registered, and
whoever holds their handles can give them back:

* `Holding` — what each patch has out is what is held of it, in the order of registration;
* `Holding.registerAll` — a registration of tasks succeeds;
* `Holding.unregisterAll` — and so does giving their handles back in the same order;
* `contents_registerAll`, `contents_unregisterAll` — neither touches particles;
* `Assembly.mem_of_registerAll` — a registration that succeeds has found all patches.
-/

namespace PatchDynamics

/-! ## One box -/

namespace Box

variable {P D : Type} {b : Box P D} {task : ComputeId} {h : Handle}

/-- A compute that is not registered can be. -/
theorem register_free (nodup : b.tasks.Nodup) (free : task ∉ b.tasks) :
    ∃ h box, b.register task = ⟨.ok h, none, box⟩ ∧ h.task = task ∧
      box.handles = b.handles ++ [h] ∧ box.tasks.Nodup := by
  have hok : (b.register task).outcome = .ok ⟨b.serial, task, b.nextToken⟩ := by
    rw [register, if_neg free]
  refine ⟨⟨b.serial, task, b.nextToken⟩, (b.register task).box, ?_, rfl, handles_register hok, ?_⟩
  · rw [register, if_neg free]
  · rw [tasks_register free]
    refine List.nodup_append.mpr ⟨nodup, List.nodup_singleton task, ?_⟩
    intro other hother t ht
    rw [List.mem_singleton.mp ht]
    exact fun heq => free (heq ▸ hother)

/-- The handle that is out the longest can be given back. -/
theorem unregister_first (nodup : b.tasks.Nodup) {rest : List Handle}
    (first : b.handles = h :: rest) :
    ∃ box, b.unregister h = ⟨.ok (), none, box⟩ ∧ box.handles = rest ∧ box.tasks.Nodup := by
  have hmem : h ∈ b.handles := first ▸ List.mem_cons_self
  obtain ⟨r, -, -, live⟩ := live_of_mem_handles nodup hmem
  refine ⟨(b.unregister h).box, ?_, ?_, ?_⟩
  · rw [unregister, live]
  · have hdistinct := nodup_handles nodup
    rw [first, List.nodup_cons] at hdistinct
    rw [handles_unregister nodup live, first, List.filter_cons_of_neg (by simp),
      List.filter_eq_self]
    exact fun g hg => decide_eq_true fun heq => hdistinct.1 (heq ▸ hg)
  · rw [tasks_unregister live]
    exact nodup.filter _

end Box

/-! ## One patch -/

namespace Assembly

/-- Two calls in a row on a patch of an assembly, neither of which tells the integrator anything. -/
theorem onPatch_pair {α β : Type} {s : Assembly} (nodup : (s.patches.map Patch.id).Nodup)
    {p : Patch} (hp : p ∈ s.patches) (absent : Failure) {f : Patch → Patch.Reply α}
    {g : Patch → Patch.Reply β} {a : α} {b : β} {middle new : Patch}
    (hf : f p = ⟨.ok a, [], middle⟩) (hmiddle : middle.id = p.id)
    (hg : g middle = ⟨.ok b, [], new⟩) :
    ∃ s₁, onPatch p.id absent f s = (.ok a, s₁) ∧
      onPatch p.id absent g s₁ =
        (.ok b, { s with patches := putPatch s.patches (fun q => q) p new }) := by
  have hfirst := onPatch_eq (List.map_id' s.patches).symm (fun _ _ => rfl) nodup hp absent hf
  refine ⟨_, hfirst, ?_⟩
  -- the patch is by now the middle one, under the same number
  have hstate : (fun q : Patch => if q.id = p.id then middle else q) p = middle := if_pos rfl
  have hid : ∀ q ∈ s.patches, (if q.id = p.id then middle else q).id = q.id := by
    intro q _
    by_cases hsame : q.id = p.id
    · rw [if_pos hsame, hmiddle, hsame]
    · rw [if_neg hsame]
  rw [← hstate] at hg
  have hpatches : putPatch s.patches (fun q => q) p middle =
      s.patches.map fun q => if q.id = p.id then middle else q := rfl
  rw [onPatch_eq hpatches hid nodup hp absent hg]
  have hput : putPatch s.patches (fun q => if q.id = p.id then middle else q) p new =
      putPatch s.patches (fun q => q) p new := by
    refine List.map_congr_left fun q _ => ?_
    by_cases hsame : q.id = p.id
    · rw [if_pos hsame, if_pos hsame]
    · rw [if_neg hsame, if_neg hsame]
      exact if_neg hsame
  rw [hput]
  simp

end Assembly

namespace Patch

variable {p : Patch} {task : ComputeId}

/-- A patch and what becomes of it when a compute is registered with its positions and its
forces. -/
structure Registered (p : Patch) (task : ComputeId) (positions forces : Handle) (new : Patch) :
    Prop where
  /-- it has the same number -/
  id : new.id = p.id
  /-- no compute is registered twice -/
  single : new.positionBox.tasks.Nodup ∧ new.forceBox.tasks.Nodup
  /-- one more handle on positions is out -/
  positionsOut : new.positionBox.handles = p.positionBox.handles ++ [positions]
  /-- it is the compute's -/
  positionsOwner : positions.task = task
  /-- one more handle on forces is out -/
  forcesOut : new.forceBox.handles = p.forceBox.handles ++ [forces]
  /-- it is the compute's -/
  forcesOwner : forces.task = task

/-- A compute that is not registered with a patch can be. -/
theorem register_free (hsingle : p.positionBox.tasks.Nodup ∧ p.forceBox.tasks.Nodup)
    (hfree : task ∉ p.positionBox.tasks ∧ task ∉ p.forceBox.tasks) :
    ∃ positions forces middle new, p.register .position task = ⟨.ok positions, [], middle⟩ ∧
      middle.id = p.id ∧ middle.register .force task = ⟨.ok forces, [], new⟩ ∧
      p.Registered task positions forces new := by
  obtain ⟨positions, box, hregister, htask, hhandles, hnodup⟩ :=
    Box.register_free hsingle.1 hfree.1
  obtain ⟨forces, box', hregister', htask', hhandles', hnodup'⟩ :=
    Box.register_free hsingle.2 hfree.2
  refine ⟨positions, forces, { p with
      positionBox := box
      readers := (p.readers.insert task).2 }, { p with
      positionBox := box
      readers := (p.readers.insert task).2
      forceBox := box'
      contributors := (p.contributors.insert task).2 }, ?_, rfl, ?_, ?_⟩
  · rw [register, hregister]
  · rw [register, hregister']
  · exact ⟨rfl, ⟨hnodup, hnodup'⟩, hhandles, htask, hhandles', htask'⟩

/-- The handles that are out the longest can be given back. -/
theorem unregister_first (hsingle : p.positionBox.tasks.Nodup ∧ p.forceBox.tasks.Nodup)
    {positions forces : Handle} {readers depositors : List Handle}
    (hpositions : p.positionBox.handles = positions :: readers)
    (hforces : p.forceBox.handles = forces :: depositors) :
    ∃ middle new, p.unregister .position positions = ⟨.ok (), [], middle⟩ ∧
      middle.id = p.id ∧ middle.unregister .force forces = ⟨.ok (), [], new⟩ ∧ new.id = p.id ∧
      (new.positionBox.tasks.Nodup ∧ new.forceBox.tasks.Nodup) ∧
      new.positionBox.handles = readers ∧ new.forceBox.handles = depositors := by
  obtain ⟨box, hunregister, hhandles, hnodup⟩ := Box.unregister_first hsingle.1 hpositions
  obtain ⟨box', hunregister', hhandles', hnodup'⟩ := Box.unregister_first hsingle.2 hforces
  refine ⟨{ p with
      positionBox := box
      readers := (p.readers.remove positions.task).2 }, { p with
      positionBox := box
      readers := (p.readers.remove positions.task).2
      forceBox := box'
      contributors := (p.contributors.remove forces.task).2 }, ?_, rfl, ?_, rfl,
    ⟨hnodup, hnodup'⟩, hhandles, hhandles'⟩
  · rw [unregister, hunregister]
  · rw [unregister, hunregister']

end Patch

/-! ## What is held -/

/-- What is held of a patch. -/
def heldOf (patch : PatchId) (held : List Endpoint) : List Endpoint :=
  held.filter fun e => e.patch = patch

theorem heldOf_cons_self (e : Endpoint) (held : List Endpoint) :
    heldOf e.patch (e :: held) = e :: heldOf e.patch held :=
  List.filter_cons_of_pos (decide_eq_true rfl)

theorem heldOf_cons_of_ne {patch : PatchId} {e : Endpoint} (held : List Endpoint)
    (hne : e.patch ≠ patch) : heldOf patch (e :: held) = heldOf patch held :=
  List.filter_cons_of_neg (by simpa using hne)

theorem heldOf_append (patch : PatchId) (held more : List Endpoint) :
    heldOf patch (held ++ more) = heldOf patch held ++ heldOf patch more :=
  List.filter_append ..

/-- The patches while handles on them are out. -/
structure Holding (ids : List PatchId) (held : List Endpoint) (l : List Patch) : Prop where
  /-- the patches have these numbers -/
  named : l.map Patch.id = ids
  /-- the numbers are different -/
  distinct : ids.Nodup
  /-- the handles on the positions of a patch are those that are held of it -/
  positions : ∀ p ∈ l, p.positionBox.handles = (heldOf p.id held).map Endpoint.positions
  /-- and so are the handles on its forces -/
  forces : ∀ p ∈ l, p.forceBox.handles = (heldOf p.id held).map Endpoint.forces
  /-- no compute is registered twice -/
  single : ∀ p ∈ l, p.positionBox.tasks.Nodup ∧ p.forceBox.tasks.Nodup

namespace Holding

variable {ids : List PatchId} {held rest : List Endpoint} {l : List Patch} {s : Assembly}
  {patch : PatchId} {task : ComputeId} {e : Endpoint}

theorem nodup (h : Holding ids held l) : (l.map Patch.id).Nodup := h.named ▸ h.distinct

/-- Nothing is held of patches without registrations. -/
theorem of_free (named : l.map Patch.id = ids) (distinct : ids.Nodup)
    (free : ∀ p ∈ l, p.positionBox.tasks = [] ∧ p.forceBox.tasks = []) : Holding ids [] l where
  named := named
  distinct := distinct
  positions := by
    intro p hp
    rw [Box.handles, List.map_eq_nil_iff.mp (free p hp).1]
    rfl
  forces := by
    intro p hp
    rw [Box.handles, List.map_eq_nil_iff.mp (free p hp).2]
    rfl
  single := by
    intro p hp
    rw [(free p hp).1, (free p hp).2]
    exact ⟨List.nodup_nil, List.nodup_nil⟩

/-- One of the patches replaced by another one, of which something else is held. -/
theorem put (h : Holding ids held l) {p new : Patch} (hid : new.id = p.id)
    (hsingle : new.positionBox.tasks.Nodup ∧ new.forceBox.tasks.Nodup)
    (hpositions : new.positionBox.handles = (heldOf p.id rest).map Endpoint.positions)
    (hforces : new.forceBox.handles = (heldOf p.id rest).map Endpoint.forces)
    (hothers : ∀ id, id ≠ p.id → heldOf id rest = heldOf id held) :
    Holding ids rest (Assembly.putPatch l (fun q => q) p new) where
  named := (Assembly.map_id_putPatch hid).trans h.named
  distinct := h.distinct
  positions := by
    intro q hq
    rcases Assembly.mem_putPatch hq with rfl | ⟨hq, hne⟩
    · rw [hid, hpositions]
    · rw [hothers q.id hne, h.positions q hq]
  forces := by
    intro q hq
    rcases Assembly.mem_putPatch hq with rfl | ⟨hq, hne⟩
    · rw [hid, hforces]
    · rw [hothers q.id hne, h.forces q hq]
  single := by
    intro q hq
    rcases Assembly.mem_putPatch hq with rfl | ⟨hq, -⟩
    · exact hsingle
    · exact h.single q hq

/-- Patches that know of the same handles as the ones before, and are at rest. -/
theorem map (h : Holding ids held l) {f : Patch → Patch}
    (hf : ∀ p ∈ l, p.Continues (f p) ∧ (f p).AtRest) : Holding ids held (l.map f) where
  named := by
    rw [List.map_map, ← h.named]
    exact List.map_congr_left fun p hp => (hf p hp).1.id
  distinct := h.distinct
  positions := by
    intro q hq
    obtain ⟨p, hp, rfl⟩ := List.mem_map.mp hq
    rw [(hf p hp).1.positions, (hf p hp).1.id, h.positions p hp]
  forces := by
    intro q hq
    obtain ⟨p, hp, rfl⟩ := List.mem_map.mp hq
    rw [(hf p hp).1.forces, (hf p hp).1.id, h.forces p hp]
  single := by
    intro q hq
    obtain ⟨p, hp, rfl⟩ := List.mem_map.mp hq
    exact ⟨(hf p hp).2.orderly.positions.nodup, (hf p hp).2.orderly.forces.nodup⟩

/-! ## Registration -/

/-- Whether a compute holds nothing of a patch yet. -/
def Free (task : ComputeId) (patch : PatchId) (held : List Endpoint) : Prop :=
  ∀ e ∈ heldOf patch held, e.positions.task ≠ task ∧ e.forces.task ≠ task

/-- A compute that holds nothing of a patch is not registered there. -/
theorem not_mem_tasks (h : Holding ids held l) {p : Patch} (hp : p ∈ l)
    (hfree : Free task p.id held) :
    task ∉ p.positionBox.tasks ∧ task ∉ p.forceBox.tasks := by
  rw [← Box.map_task_handles, ← Box.map_task_handles, h.positions p hp, h.forces p hp,
    List.map_map, List.map_map]
  constructor
  · intro hmem
    obtain ⟨e, he, heq⟩ := List.mem_map.mp hmem
    exact (hfree e he).1 heq
  · intro hmem
    obtain ⟨e, he, heq⟩ := List.mem_map.mp hmem
    exact (hfree e he).2 heq

/-- **A registration with a patch** succeeds. -/
theorem registerEndpoint (h : Holding ids held s.patches) (hpatch : patch ∈ ids)
    (hfree : Free task patch held) :
    ∃ e s', ForceTask.registerEndpoint task patch s = (.ok e, s') ∧
      Holding ids (held ++ [e]) s'.patches ∧
      e.patch = patch ∧ e.positions.task = task ∧ e.forces.task = task := by
  rw [← h.named] at hpatch
  obtain ⟨p, hp, rfl⟩ := List.mem_map.mp hpatch
  obtain ⟨positions, forces, middle, new, hfirst, hmiddle, hsecond, hnew⟩ :=
    Patch.register_free (h.single p hp) (h.not_mem_tasks hp hfree)
  obtain ⟨s₁, hposition, hforce⟩ := Assembly.onPatch_pair h.nodup hp
    (.taskNamesUnknownPatch task p.id) (f := fun p => p.register .position task)
    (g := fun p => p.register .force task) hfirst hmiddle hsecond
  refine ⟨⟨p.id, positions, forces⟩,
    { s with patches := Assembly.putPatch s.patches (fun q => q) p new }, ?_, ?_, rfl,
    hnew.positionsOwner, hnew.forcesOwner⟩
  · rw [ForceTask.registerEndpoint, bind_of_ok hposition, bind_of_ok hforce]
    rfl
  · have hlast : heldOf p.id [⟨p.id, positions, forces⟩] = [⟨p.id, positions, forces⟩] :=
      heldOf_cons_self ⟨p.id, positions, forces⟩ []
    refine h.put hnew.id hnew.single ?_ ?_ fun id hne => ?_
    · rw [heldOf_append, List.map_append, ← h.positions p hp, hlast]
      exact hnew.positionsOut
    · rw [heldOf_append, List.map_append, ← h.forces p hp, hlast]
      exact hnew.forcesOut
    · rw [heldOf_append, heldOf_cons_of_ne [] (Ne.symm hne)]
      exact List.append_nil _

/-- A registration with some patches succeeds. -/
theorem registerEndpoints (h : Holding ids held s.patches) {patches : List PatchId}
    (hpatches : ∀ patch ∈ patches, patch ∈ ids) (hnodup : patches.Nodup)
    (hfree : ∀ patch ∈ patches, Free task patch held) :
    ∃ endpoints s', patches.mapM (ForceTask.registerEndpoint task) s = (.ok endpoints, s') ∧
      Holding ids (held ++ endpoints) s'.patches ∧ endpoints.map Endpoint.patch = patches ∧
      ∀ e ∈ endpoints, e.positions.task = task ∧ e.forces.task = task := by
  induction patches generalizing s held with
  | nil =>
    refine ⟨[], s, rfl, ?_, rfl, nofun⟩
    rw [List.append_nil]
    exact h
  | cons patch patches ih =>
    rw [List.forall_mem_cons] at hpatches hfree
    rw [List.nodup_cons] at hnodup
    obtain ⟨e, s₁, hfirst, h₁, rfl, htask⟩ := h.registerEndpoint hpatches.1 hfree.1
    -- nothing more is held of the other patches
    have hothers : ∀ patch ∈ patches, Free task patch (held ++ [e]) := by
      intro patch hpatch
      have hne : e.patch ≠ patch := fun heq => hnodup.1 (heq ▸ hpatch)
      rw [Free, heldOf_append, heldOf_cons_of_ne [] hne, heldOf, heldOf, List.filter_nil,
        List.append_nil]
      exact hfree.2 patch hpatch
    obtain ⟨endpoints, s', hrest, h', hplaces, htasks⟩ := ih h₁ hpatches.2 hnodup.2 hothers
    refine ⟨e :: endpoints, s', ?_, ?_, congrArg (e.patch :: ·) hplaces, ?_⟩
    · rw [List.mapM_cons, bind_of_ok hfirst, bind_of_ok hrest]
      rfl
    · rw [List.append_cons]
      exact h'
    · exact List.forall_mem_cons.mpr ⟨htask, htasks⟩

/-- **A registration of tasks** succeeds if they are different computes, each on different patches
that are there, none of which holds anything yet. -/
theorem registerAll (h : Holding ids held s.patches) {specs : List Task}
    (hpatches : ∀ t ∈ specs, t.patches.Nodup ∧ ∀ patch ∈ t.patches, patch ∈ ids)
    (computes : (specs.map Task.id).Nodup) (hfree : ∀ t ∈ specs, ∀ patch, Free t.id patch held) :
    ∃ tasks s', specs.mapM ForceTask.register s = (.ok tasks, s') ∧
      Holding ids (held ++ tasks.flatMap ForceTask.endpoints) s'.patches ∧
      tasks.map (fun t => t.endpoints.map Endpoint.patch) = specs.map Task.patches := by
  induction specs generalizing s held with
  | nil =>
    refine ⟨[], s, rfl, ?_, rfl⟩
    rw [List.flatMap_nil, List.append_nil]
    exact h
  | cons t specs ih =>
    rw [List.forall_mem_cons] at hpatches hfree
    rw [List.map_cons, List.nodup_cons] at computes
    obtain ⟨endpoints, s₁, hfirst, h₁, hplaces, htasks⟩ :=
      h.registerEndpoints hpatches.1.2 hpatches.1.1 fun patch _ => hfree.1 patch
    have hfirst : ForceTask.register t s = (.ok ⟨t.id, endpoints⟩, s₁) := by
      rw [ForceTask.register, bind_of_ok hfirst]
      rfl
    -- what the task holds is not the others'
    have hothers : ∀ u ∈ specs, ∀ patch, Free u.id patch (held ++ endpoints) := by
      intro u hu patch e he
      have hne : t.id ≠ u.id := fun heq => computes.1 (heq ▸ List.mem_map_of_mem hu)
      rw [heldOf_append, List.mem_append] at he
      rcases he with he | he
      · exact hfree.2 u hu patch e he
      · obtain ⟨hpositions, hforces⟩ := htasks e (List.mem_of_mem_filter he)
        exact ⟨hpositions ▸ hne, hforces ▸ hne⟩
    obtain ⟨tasks, s', hrest, h', hplaces'⟩ := ih h₁ hpatches.2 computes.2 hothers
    refine ⟨⟨t.id, endpoints⟩ :: tasks, s', ?_, ?_, ?_⟩
    · rw [List.mapM_cons, bind_of_ok hfirst, bind_of_ok hrest]
      rfl
    · rw [List.flatMap_cons, ← List.append_assoc]
      exact h'
    · rw [List.map_cons, List.map_cons, hplaces', hplaces]

/-! ## Giving handles back -/

/-- **What is held of a patch the longest** can be given back. -/
theorem unregisterEndpoint (h : Holding ids (e :: rest) s.patches) (hpatch : e.patch ∈ ids) :
    ∃ s', ForceTask.unregisterEndpoint e s = (.ok (), s') ∧ Holding ids rest s'.patches := by
  rw [← h.named] at hpatch
  obtain ⟨p, hp, hid⟩ := List.mem_map.mp hpatch
  have hpositions := h.positions p hp
  have hforces := h.forces p hp
  rw [hid, heldOf_cons_self] at hpositions hforces
  obtain ⟨middle, new, hfirst, hmiddle, hsecond, hnew, hsingle, hreaders, hdepositors⟩ :=
    Patch.unregister_first (h.single p hp) hpositions hforces
  obtain ⟨s₁, hposition, hforce⟩ := Assembly.onPatch_pair h.nodup hp (.unknownPatch e.patch)
    (f := fun p => p.unregister .position e.positions)
    (g := fun p => p.unregister .force e.forces) hfirst hmiddle hsecond
  rw [hid] at hposition hforce
  refine ⟨_, (bind_of_ok hposition _).trans hforce, ?_⟩
  refine h.put hnew hsingle (hid ▸ hreaders) (hid ▸ hdepositors) fun id hne => ?_
  exact (heldOf_cons_of_ne rest fun heq => hne (heq.symm.trans hid.symm)).symm

theorem unregisterEndpoints {endpoints : List Endpoint}
    (h : Holding ids (endpoints ++ rest) s.patches) (hpatches : ∀ e ∈ endpoints, e.patch ∈ ids) :
    ∃ s', endpoints.forM ForceTask.unregisterEndpoint s = (.ok (), s') ∧
      Holding ids rest s'.patches := by
  induction endpoints generalizing s with
  | nil => exact ⟨s, rfl, h⟩
  | cons e endpoints ih =>
    rw [List.forall_mem_cons] at hpatches
    obtain ⟨s₁, hfirst, h₁⟩ := h.unregisterEndpoint hpatches.1
    obtain ⟨s', hrest, h'⟩ := ih h₁ hpatches.2
    exact ⟨s', (bind_of_ok hfirst _).trans hrest, h'⟩

/-- **All that tasks hold** can be given back, task by task. -/
theorem unregisterAll {tasks : List ForceTask}
    (h : Holding ids (tasks.flatMap ForceTask.endpoints) s.patches)
    (hpatches : ∀ t ∈ tasks, ∀ e ∈ t.endpoints, e.patch ∈ ids) :
    ∃ s', tasks.forM ForceTask.unregister s = (.ok (), s') := by
  induction tasks generalizing s with
  | nil => exact ⟨s, rfl⟩
  | cons t tasks ih =>
    rw [List.forall_mem_cons] at hpatches
    rw [List.flatMap_cons] at h
    obtain ⟨s₁, hfirst, h₁⟩ := h.unregisterEndpoints hpatches.1
    obtain ⟨s', hrest⟩ := ih h₁ hpatches.2
    exact ⟨s', (bind_of_ok hfirst _).trans hrest⟩

end Holding

/-! ## What neither touches -/

namespace Assembly

variable {α : Type}

/-- The assembly without its patches and signals, and the particles that each patch lists. -/
def contents (s : Assembly) : Assembly × List (List ParticleId) :=
  (s.frame, s.patches.map Patch.ids)

theorem map_changeFirst {β : Type} (part : Patch → β) {id : PatchId} {change : Patch → α × Patch}
    (hchange : ∀ p, part (change p).2 = part p) {l others : List Patch} {a : α}
    (h : changeFirst id change l = some (a, others)) : others.map part = l.map part := by
  induction l generalizing others with
  | nil => cases h
  | cons p l ih =>
    rw [changeFirst] at h
    split at h
    · cases h
      rw [List.map_cons, List.map_cons, hchange]
    · obtain ⟨⟨b, rest⟩, hrest, heq⟩ := Option.map_eq_some_iff.mp h
      cases heq
      rw [List.map_cons, List.map_cons, ih hrest]

/-- A call that keeps something of its patch keeps it of all patches. -/
theorem map_onPatch {β : Type} (part : Patch → β) {f : Patch → Patch.Reply α}
    (hf : ∀ p, part (f p).patch = part p) (id : PatchId) (absent : Failure) (s : Assembly) :
    (onPatch id absent f s).2.patches.map part = s.patches.map part := by
  rw [onPatch_apply]
  cases hcall : s.call id f with
  | none => rfl
  | some result =>
    rw [call, Option.map_eq_some_iff] at hcall
    obtain ⟨⟨⟨outcome, signals⟩, patches⟩, hchange, rfl⟩ := hcall
    have hpart := map_changeFirst part hf hchange
    cases outcome <;> exact hpart

/-- A call that keeps the particles of its patch keeps all contents. -/
theorem contents_onPatch {f : Patch → Patch.Reply α} (hf : ∀ p, (f p).patch.ids = p.ids)
    (id : PatchId) (absent : Failure) (s : Assembly) :
    (onPatch id absent f s).2.contents = s.contents :=
  Prod.ext (frame_onPatch id absent f s) (map_onPatch Patch.ids hf id absent s)

end Assembly

/-- An action on every entry of a list leaves alone what each of them does. -/
theorem keeps_mapM {σ α β γ : Type} (part : σ → γ) {f : α → Action σ β}
    (hf : ∀ a s, part (f a s).2 = part s) (l : List α) (s : σ) :
    part (l.mapM f s).2 = part s := by
  induction l generalizing s with
  | nil => rfl
  | cons a l ih =>
    rw [List.mapM_cons]
    refine keeps_bind part (hf a) (fun b s => ?_) s
    exact keeps_bind part ih (fun _ _ => rfl) s

theorem keeps_forM {σ α γ : Type} (part : σ → γ) {f : α → Action σ Unit}
    (hf : ∀ a s, part (f a s).2 = part s) (l : List α) (s : σ) :
    part (l.forM f s).2 = part s := by
  induction l generalizing s with
  | nil => rfl
  | cons a l ih => exact keeps_bind part (hf a) (fun _ s => ih s) s

/-- What the registrations with the boxes leave alone, a registration of tasks does. -/
theorem keeps_registerAll {γ : Type} (part : Assembly → γ)
    (hpart : ∀ kind task patch absent s,
      part (Assembly.onPatch patch absent (fun p => p.register kind task) s).2 = part s)
    (specs : List Task) (s : Assembly) :
    part (specs.mapM ForceTask.register s).2 = part s := by
  refine keeps_mapM part (fun t s => ?_) specs s
  refine keeps_bind part ?_ (fun _ _ => rfl) s
  refine keeps_mapM part (fun patch s => ?_) t.patches
  refine keeps_bind part (hpart .position t.id patch _) (fun _ s => ?_) s
  exact keeps_bind part (hpart .force t.id patch _) (fun _ _ => rfl) s

/-- An action that succeeds on a list has succeeded on each entry, at some state on the way. -/
theorem ok_of_mapM {σ α β γ : Type} (part : σ → γ) {f : α → Action σ β}
    (hf : ∀ a s, part (f a s).2 = part s) {l : List α} {l' : List β} {s s' : σ}
    (h : l.mapM f s = (.ok l', s')) {a : α} (ha : a ∈ l) :
    ∃ b s₁ s₂, part s₁ = part s ∧ f a s₁ = (.ok b, s₂) := by
  induction l generalizing s s' l' with
  | nil => exact absurd ha List.not_mem_nil
  | cons first l ih =>
    rw [List.mapM_cons] at h
    obtain ⟨b, s₁, hfirst, h⟩ := ok_of_bind h
    obtain ⟨rest, s₂, hrest, -⟩ := ok_of_bind h
    rcases List.mem_cons.mp ha with rfl | ha
    · exact ⟨b, s, s₁, rfl, hfirst⟩
    · have hpart := hf first s
      rw [hfirst] at hpart
      obtain ⟨c, s₃, s₄, hkept, hc⟩ := ih hrest ha
      exact ⟨c, s₃, s₄, hkept.trans hpart, hc⟩

namespace Assembly

/-- A call succeeds only on a patch that is there. -/
theorem mem_of_onPatch {α : Type} {f : Patch → Patch.Reply α} {id : PatchId} {absent : Failure}
    {s s' : Assembly} {a : α} (h : onPatch id absent f s = (.ok a, s')) : id ∈ s.patchIds := by
  by_contra hnone
  rw [onPatch_apply, call, changeFirst_of_not_mem hnone] at h
  cases h

/-- Registrations leave the numbers of the patches alone. -/
theorem patchIds_register (id : PatchId) (absent : Failure) (kind : BoxKind) (task : ComputeId)
    (s : Assembly) :
    (onPatch id absent (fun p => p.register kind task) s).2.patchIds = s.patchIds :=
  map_onPatch Patch.id (fun p => p.id_register kind task) id absent s

theorem patchIds_registerEndpoint (task : ComputeId) (patch : PatchId) (s : Assembly) :
    (ForceTask.registerEndpoint task patch s).2.patchIds = s.patchIds := by
  refine keeps_bind patchIds (patchIds_register patch _ .position task) (fun _ s => ?_) s
  exact keeps_bind patchIds (patchIds_register patch _ .force task) (fun _ _ => rfl) s

/-- **A registration succeeds** only if all patches are there. -/
theorem mem_of_registerAll {specs : List Task} {tasks : List ForceTask} {s s' : Assembly}
    (h : specs.mapM ForceTask.register s = (.ok tasks, s')) {t : Task} (ht : t ∈ specs)
    {id : PatchId} (hid : id ∈ t.patches) : id ∈ s.patchIds := by
  have hkeeps : ∀ (t : Task) s, (ForceTask.register t s).2.patchIds = s.patchIds := fun t s =>
    keeps_bind patchIds (keeps_mapM patchIds (patchIds_registerEndpoint t.id) t.patches)
      (fun _ _ => rfl) s
  obtain ⟨_, s₁, s₂, hs₁, htask⟩ := ok_of_mapM patchIds hkeeps h ht
  obtain ⟨endpoints, s₃, hendpoints, -⟩ := ok_of_bind htask
  obtain ⟨_, s₄, s₅, hs₄, hendpoint⟩ :=
    ok_of_mapM patchIds (patchIds_registerEndpoint t.id) hendpoints hid
  obtain ⟨_, s₆, hposition, -⟩ := ok_of_bind hendpoint
  rw [← hs₁, ← hs₄]
  exact mem_of_onPatch hposition

end Assembly

/-- **A registration** leaves the directory and the particles alone. -/
theorem contents_registerAll (specs : List Task) (s : Assembly) :
    (specs.mapM ForceTask.register s).2.contents = s.contents :=
  keeps_registerAll Assembly.contents
    (fun kind task patch absent s =>
      Assembly.contents_onPatch (fun p => p.ids_register kind task) patch absent s)
    specs s

/-- **Giving handles back** leaves the directory and the particles alone. -/
theorem contents_unregisterAll (tasks : List ForceTask) (s : Assembly) :
    (tasks.forM ForceTask.unregister s).2.contents = s.contents := by
  refine keeps_forM Assembly.contents (fun t s => ?_) tasks s
  refine keeps_forM Assembly.contents (fun e s => ?_) t.endpoints s
  refine keeps_bind Assembly.contents ?_ (fun _ s => ?_) s
  · exact Assembly.contents_onPatch (fun p => p.ids_unregister .position e.positions) e.patch _
  · exact Assembly.contents_onPatch (fun p => p.ids_unregister .force e.forces) e.patch _ s

end PatchDynamics
