import PatchDynamics.Experiment.Run
import PatchDynamics.Proofs.Directory.Replacement

/-!
# The phase of output

After every output period each patch hands in its slices, patch by patch, and the number of the step
is the number of the frame. So frames come one after the other, and none is late:

* `Gathering` — the invariant of an aggregator: it has the slices of the first patches;
* `Gathering.submit` — one more slice;
* `collect_slices` — the slices of one patch;
* `output_ok` — the slices of all patches make one frame of each quantity, and none is refused.
-/

namespace PatchDynamics

/-! ## Frames that come one after the other -/

namespace DeliveryLog

/-- A log of numbers below a bound. -/
structure Below (log : DeliveryLog) (bound : Nat) : Prop where
  /-- those remembered one by one -/
  recent : ∀ m ∈ log.recent, m < bound
  /-- the largest one of the others -/
  horizon : ∀ h, log.horizon = some h → h < bound

theorem Below.forget (history : Nat) {recent : List Nat} {horizon : Option Nat} {bound : Nat}
    (h : Below ⟨recent, horizon⟩ bound) : (forget history recent horizon).Below bound := by
  induction recent generalizing horizon with
  | nil => exact h
  | cons old rest ih =>
    obtain ⟨hold, hrest⟩ := List.forall_mem_cons.mp h.recent
    rw [DeliveryLog.forget.eq_def]
    dsimp only
    split
    · refine ih ⟨hrest, fun b hb => ?_⟩
      obtain rfl := Option.some.inj hb
      cases horizon with
      | none => exact hold
      | some b => exact Nat.max_lt.mpr ⟨h.horizon b rfl, hold⟩
    · exact h

/-- The next number in a row is delivered. -/
theorem Below.mark {log : DeliveryLog} {seq : Nat} (h : log.Below seq) (history : Nat) :
    (log.mark history seq).Below (seq + 1) := by
  refine Below.forget history ⟨fun m hm => ?_, fun b hb => Nat.lt_succ_of_lt (h.horizon b hb)⟩
  rcases List.mem_append.mp hm with hm | hm
  · exact Nat.lt_succ_of_lt (h.recent m hm)
  · rw [List.mem_singleton.mp hm]
    exact Nat.lt_succ_self seq

theorem Below.mono {log : DeliveryLog} {bound bound' : Nat} (h : log.Below bound)
    (hle : bound ≤ bound') : log.Below bound' :=
  ⟨fun m hm => Nat.lt_of_lt_of_le (h.recent m hm) hle,
    fun b hb => Nat.lt_of_lt_of_le (h.horizon b hb) hle⟩

end DeliveryLog

namespace Aggregator

variable {a : Aggregator} {seq got size : Nat}

/-- A number above all delivered ones may start a frame. -/
theorem checkLate_of_below (h : a.delivered.Below seq) : a.checkLate seq = .ok () := by
  rw [checkLate, if_neg fun hmem => Nat.lt_irrefl _ (h.recent seq hmem)]
  cases hhorizon : a.delivered.horizon with
  | none => rfl
  | some b => exact if_neg (Nat.not_le_of_lt (h.horizon b hhorizon))

/-- An aggregator that has got some slices of one frame, and none of a later one. -/
structure Gathering (a : Aggregator) (seq got size : Nat) : Prop where
  /-- only earlier frames are delivered -/
  earlier : a.delivered.Below seq
  /-- slices are to come -/
  more : got < a.expected
  /-- the frame is not started, or the only one under way -/
  pending : got = 0 ∧ size = 0 ∧ a.pending = [] ∨
    0 < got ∧ ∃ frame, a.pending = [⟨frame, a.expected - got⟩] ∧ frame.seq = seq ∧
      frame.size = size

/-- What a slice does to an aggregator that has got some: it adds to the frame, and the last one
completes it. -/
inductive Gathered (a : Aggregator) (seq got size : Nat) :
    Except Refusal (Option Frame) × Aggregator → Prop where
  /-- slices are to come -/
  | more {a' : Aggregator} (expected : a'.expected = a.expected)
    (gathering : a'.Gathering seq got size) : Gathered a seq got size (.ok none, a')
  /-- this was the last one -/
  | complete {a' : Aggregator} {frame : Frame} (all : got = a.expected)
    (expected : a'.expected = a.expected) (numbered : frame.seq = seq) (sized : frame.size = size)
    (gathering : a'.Gathering (seq + 1) 0 0) : Gathered a seq got size (.ok (some frame), a')

/-- **One more slice.** -/
theorem Gathering.submit (h : a.Gathering seq got size) {ids : List ParticleId}
    {values : List Vec3} (hlength : ids.length = values.length) (precision : Precision)
    (lattice : Option Lattice) :
    Gathered a seq (got + 1) (size + ids.length) (a.submit seq ids values precision lattice) := by
  have hmore := h.more
  rw [Aggregator.submit, if_neg (not_not.mpr hlength)]
  rcases h.pending with ⟨rfl, rfl, hnone⟩ | ⟨hpos, frame, hone, hseq, hsize⟩
  · -- the slice starts the frame
    have hfind : a.pending? seq = none := by rw [pending?, hnone, List.find?_nil]
    rw [hfind]
    dsimp only
    rw [checkLate_of_below h.earlier, startFrame]
    dsimp only
    have hframe : ((Frame.start seq precision lattice).append ids values).size = 0 + ids.length :=
      Frame.size_append ..
    split
    · next hlast =>
      refine .complete (by omega) rfl rfl hframe ⟨h.earlier.mark a.history, ?_, ?_⟩
      · exact Nat.zero_lt_of_lt h.more
      · exact .inl ⟨rfl, rfl, hnone⟩
    · next hlast =>
      refine .more rfl ⟨h.earlier, ?_, .inr ⟨Nat.one_pos, _, ?_, rfl, hframe⟩⟩
      · exact (by omega : 0 + 1 < a.expected)
      · rw [hnone]
        rfl
  · -- the slice adds to the frame
    have hfind : a.pending? seq = some ⟨frame, a.expected - got⟩ := by
      rw [pending?, hone]
      exact List.find?_cons_of_pos (decide_eq_true hseq)
    rw [hfind]
    dsimp only [continueFrame]
    have hframe : (frame.append ids values).size = size + ids.length := by
      rw [Frame.size_append, hsize]
    have hnumber : (frame.append ids values).seq = seq := hseq
    rw [hnumber]
    split
    · next hlast =>
      refine .complete (by omega) rfl hnumber hframe ⟨h.earlier.mark a.history, ?_, ?_⟩
      · exact Nat.zero_lt_of_lt h.more
      · refine .inl ⟨rfl, rfl, ?_⟩
        rw [without, hone, List.filter_cons_of_neg (by simpa using hseq), List.filter_nil]
    · next hlast =>
      refine .more rfl ⟨h.earlier, ?_, .inr ⟨Nat.succ_pos got, _, ?_, hnumber, hframe⟩⟩
      · exact (by omega : got + 1 < a.expected)
      · rw [hone, replace, List.map_cons, hnumber, if_pos hseq, Nat.sub_sub]
        rfl

theorem Gathering.mono {bound : Nat} (h : a.Gathering seq 0 0) (hle : seq ≤ bound) :
    a.Gathering bound 0 0 := by
  refine ⟨h.earlier.mono hle, h.more, ?_⟩
  rcases h.pending with hnone | ⟨hpos, -⟩
  · exact .inl hnone
  · exact absurd hpos (Nat.lt_irrefl 0)

end Aggregator

namespace Experiment

/-! ## The slices of an output -/

/-- Both aggregators have got the slices of as many patches, of all that there are. -/
structure Collecting (c : Collection) (homes seq got size : Nat) : Prop where
  /-- positions -/
  positions : c.positions.Gathering seq got size
  /-- velocities -/
  velocities : c.velocities.Gathering seq got size
  /-- slices of all patches make a frame -/
  homes : c.positions.expected = homes ∧ c.velocities.expected = homes

theorem collecting_new {homes : Nat} (hpos : 0 < homes) (history seq : Nat) :
    Collecting (Collection.new homes history) homes seq 0 0 where
  positions := ⟨⟨nofun, nofun⟩, hpos, .inl ⟨rfl, rfl, rfl⟩⟩
  velocities := ⟨⟨nofun, nofun⟩, hpos, .inl ⟨rfl, rfl, rfl⟩⟩
  homes := ⟨rfl, rfl⟩

theorem Collecting.mono {c : Collection} {homes seq bound : Nat} (h : Collecting c homes seq 0 0)
    (hle : seq ≤ bound) : Collecting c homes bound 0 0 :=
  ⟨h.positions.mono hle, h.velocities.mono hle, h.homes⟩

/-- What is kept of the two frames of a step. -/
def summaries (step atoms : Nat) : List FrameSummary :=
  [⟨"positions", step, atoms⟩, ⟨"velocities", step, atoms⟩]

/-- A run with another collection and more frames. -/
def Run.collected (run : Run) (c : Collection) (frames : List FrameSummary) : Run :=
  { run with
    assembly := { run.assembly with collection := c }
    frames := run.frames ++ frames }

variable {plan : Plan} {velocities : Array Vec3} {homes step got size : Nat}

theorem collected_nil (run : Run) (c : Collection) :
    run.collected c [] = { run with assembly := { run.assembly with collection := c } } := by
  rw [Run.collected, List.append_nil]

/-- A slice of positions that is not refused. -/
theorem collect_positions {run : Run} {seq : Nat} {patch : PatchId} {lattice : Lattice}
    {precision : Precision} {ids : List ParticleId} {values : List Vec3} {frame : Option Frame}
    {a : Aggregator}
    (h : run.assembly.collection.positions.submit seq ids values precision (some lattice) =
      (.ok frame, a)) :
    collect run ⟨seq, patch, .positions lattice precision, ids, values⟩ =
      run.collected { run.assembly.collection with positions := a }
        (frame.toList.map fun f => ⟨"positions", f.seq, f.size⟩) := by
  rw [collect, Collection.handle]
  dsimp only [Collection.submitPositions]
  rw [h]
  cases frame with
  | none => exact (collected_nil ..).symm
  | some f => rfl

/-- A slice of velocities that is not refused. -/
theorem collect_velocities {run : Run} {seq : Nat} {patch : PatchId} {ids : List ParticleId}
    {values : List Vec3} {frame : Option Frame} {a : Aggregator}
    (h : run.assembly.collection.velocities.submit seq ids values .high none = (.ok frame, a)) :
    collect run ⟨seq, patch, .velocities, ids, values⟩ =
      run.collected { run.assembly.collection with velocities := a }
        (frame.toList.map fun f => ⟨"velocities", f.seq, f.size⟩) := by
  rw [collect, Collection.handle]
  dsimp only [Collection.submitVelocities]
  rw [h]
  cases frame with
  | none => exact (collected_nil ..).symm
  | some f => rfl

/-- The two slices of a patch, neither of which is refused. -/
theorem collect_both {run : Run} {p : Patch} {frame frame' : Option Frame} {a a' : Aggregator}
    (h : run.assembly.collection.positions.submit step p.ids (p.atoms.map Atom.position)
      plan.config.precision (some (Lattice.cube plan.config.edge)) = (.ok frame, a))
    (h' : run.assembly.collection.velocities.submit step p.ids
      (p.ids.map fun id => velocities.getD id.toNat Vec3.zero) .high none = (.ok frame', a')) :
    (slices plan velocities step p).foldl collect run = run.collected ⟨a, a'⟩
      ((frame.toList.map fun f => ⟨"positions", f.seq, f.size⟩) ++
        frame'.toList.map fun f => ⟨"velocities", f.seq, f.size⟩) := by
  rw [slices, List.foldl_cons, List.foldl_cons, List.foldl_nil, ← Patch.ids, collect_positions h]
  -- the aggregator of velocities has not changed meanwhile
  generalize hrun : run.collected _ _ = middle
  have hmiddle : middle.assembly.collection.velocities.submit step p.ids
      (p.ids.map fun id => velocities.getD id.toNat Vec3.zero) .high none = (.ok frame', a') := by
    rw [← hrun]
    exact h'
  rw [collect_velocities hmiddle, ← hrun, Run.collected, Run.collected, Run.collected,
    List.append_assoc]

/-- **The slices of one patch.** -/
theorem collect_slices (plan : Plan) (velocities : Array Vec3) {run : Run}
    (h : Collecting run.assembly.collection homes step got size) (p : Patch) :
    ∃ c, (got + 1 < homes ∧
        (slices plan velocities step p).foldl collect run = run.collected c [] ∧
        Collecting c homes step (got + 1) (size + p.ids.length)) ∨
      (got + 1 = homes ∧
        (slices plan velocities step p).foldl collect run =
          run.collected c (summaries step (size + p.ids.length)) ∧
        Collecting c homes (step + 1) 0 0) := by
  obtain ⟨hhomes, hhomes'⟩ := h.homes
  have hlength : p.ids.length = (p.atoms.map Atom.position).length := by
    rw [Patch.ids, List.length_map, List.length_map]
  have hlength' : p.ids.length =
      (p.ids.map fun id => velocities.getD id.toNat Vec3.zero).length := (List.length_map _).symm
  have hpositions := h.positions.submit hlength plan.config.precision
    (some (Lattice.cube plan.config.edge))
  have hvelocities := h.velocities.submit hlength' .high none
  generalize hsubmit : run.assembly.collection.positions.submit step p.ids _ _ _ = answer
    at hpositions
  generalize hsubmit' : run.assembly.collection.velocities.submit step p.ids _ _ _ = answer'
    at hvelocities
  -- both aggregators expect as many slices, so they complete their frames at the same time
  cases hpositions with
  | @more a hexpected hgathering =>
    have hmore := hgathering.more
    rw [hexpected, hhomes] at hmore
    cases hvelocities with
    | complete hall => exact absurd (hall.trans hhomes') (Nat.ne_of_lt hmore)
    | @more a' hexpected' hgathering' =>
      refine ⟨⟨a, a'⟩, .inl ⟨hmore, ?_, hgathering, hgathering', ?_⟩⟩
      · exact collect_both hsubmit hsubmit'
      · exact ⟨hexpected.trans hhomes, hexpected'.trans hhomes'⟩
  | @complete a frame hall hexpected hseq hsize hgathering =>
    cases hvelocities with
    | more hexpected' hgathering' =>
      have hmore := hgathering'.more
      rw [hexpected', hhomes'] at hmore
      exact absurd (hall.trans hhomes) (Nat.ne_of_lt hmore)
    | @complete a' frame' _ hexpected' hseq' hsize' hgathering' =>
      refine ⟨⟨a, a'⟩, .inr ⟨hall.trans hhomes, ?_, hgathering, hgathering', ?_⟩⟩
      · rw [collect_both hsubmit hsubmit', Option.toList, Option.toList, List.map_singleton,
          List.map_singleton, hseq, hsize, hseq', hsize']
        rfl
      · exact ⟨hexpected.trans hhomes, hexpected'.trans hhomes'⟩

/-- **The slices of all patches**, or of those that are left, make one frame of each quantity. -/
theorem collect_patches (plan : Plan) (velocities : Array Vec3) {run : Run} {l : List Patch}
    (h : Collecting run.assembly.collection homes step got size) (hall : got + l.length = homes) :
    ∃ c, (l.flatMap (slices plan velocities step)).foldl collect run =
        run.collected c (summaries step (size + (l.flatMap Patch.ids).length)) ∧
      Collecting c homes (step + 1) 0 0 := by
  induction l generalizing run got size with
  | nil => exact absurd (hall.trans h.homes.1.symm) (Nat.ne_of_lt h.positions.more)
  | cons p l ih =>
    rw [List.length_cons] at hall
    rw [List.flatMap_cons, List.foldl_append, List.flatMap_cons, List.length_append,
      ← Nat.add_assoc]
    obtain ⟨c, ⟨hmore, hslices, hcollecting⟩ | ⟨hlast, hslices, hcollecting⟩⟩ :=
      collect_slices plan velocities h p
    · have hrest : Collecting (run.collected c []).assembly.collection homes step (got + 1)
        (size + p.ids.length) := hcollecting
      obtain ⟨c', hfold, hcollecting'⟩ := ih hrest (by omega)
      refine ⟨c', ?_, hcollecting'⟩
      rw [hslices, hfold, Run.collected, Run.collected, Run.collected, List.append_nil]
    · -- this was the last patch
      obtain rfl : l = [] := List.eq_nil_of_length_eq_zero (by omega)
      exact ⟨c, hslices, hcollecting⟩

/-- The frames of a step: one of each quantity if an output period ends with it. -/
def framesOf (c : Config) (atoms step : Nat) : List FrameSummary :=
  if 0 < c.outputPeriod ∧ step % c.outputPeriod = 0 then summaries step atoms else []

theorem isOutputStep_iff {c : Config} :
    isOutputStep c step = true ↔ 0 < c.outputPeriod ∧ step % c.outputPeriod = 0 := by
  rw [isOutputStep, Bool.and_eq_true, decide_eq_true_iff, decide_eq_true_iff]

/-- **The output of a step**: frames of all particles if the step ends an output period, and no
refusal. -/
theorem output_ok (plan : Plan) (run : Run) {seq : Nat}
    (h : Collecting run.assembly.collection homes seq 0 0) (hle : seq ≤ step)
    (hall : run.assembly.patches.length = homes) :
    ∃ c, output plan run step = run.collected c
        (framesOf plan.config (run.assembly.patches.flatMap Patch.ids).length step) ∧
      Collecting c homes (step + 1) 0 0 := by
  rw [output, framesOf]
  simp only [isOutputStep_iff]
  split
  · obtain ⟨c, hfold, hcollecting⟩ := collect_patches plan run.velocities (h.mono hle)
      ((Nat.zero_add _).trans hall)
    rw [Nat.zero_add] at hfold
    exact ⟨c, hfold, hcollecting⟩
  · refine ⟨run.assembly.collection, ?_, h.mono (Nat.le_succ_of_le hle)⟩
    rw [collected_nil]

end Experiment

end PatchDynamics
