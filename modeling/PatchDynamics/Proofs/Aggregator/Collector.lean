import Mathlib.Data.List.Count
import PatchDynamics.Collection
import PatchDynamics.Proofs.Aggregator.Batches

/-!
# Collectors

Slices reach a collection in two ways, as messages to its collector and by direct calls. A collector
does with the slice of a message what a direct call would do, and tells of the outcome: this is
`handle_eq_direct`. There is one exception. Whoever calls directly hands in atoms, so there is one
position for each particle; a message may have more of the one or the other, and then it is refused.

The two quantities have nothing to do with each other:

* `Request` — a message or a direct call, `entries` — the replies to some of them;
* `answer_eq` — what a request does, to the aggregator of its own quantity and to the other one;
* `entries_filter` — without the requests of one quantity, those of the other are answered alike;
* `nodup_delivered` — no number of either quantity is delivered twice, on whatever way its slices
  come in.
-/

namespace PatchDynamics

namespace Collection

/-! ## One message -/

/-- Hands in directly what a message says: velocities as they are, and positions as those of the
atoms that they make up. -/
def direct (c : Collection) (s : Slice) : Except Refusal (Option Frame) × Collection :=
  match s.quantity with
  | .positions lattice precision =>
    c.submitAtoms s.seq ((s.ids.zip s.values).map fun (id, v) => ⟨id, v⟩) lattice precision
  | .velocities => c.submitVelocities s.seq s.ids s.values

/-- What is told of the outcome for the slice of a message. -/
def told (s : Slice) : Except Refusal (Option Frame) → Option Broadcast
  | .ok none => none
  | .ok (some frame) => some (.assembled s.quantity.name frame)
  | .error r => some (.rejected s.seq s.patch r)

/-- Hands in the lists of a message, without making atoms of them. -/
def submit (c : Collection) (s : Slice) : Except Refusal (Option Frame) × Collection :=
  match s.quantity with
  | .positions lattice precision => c.submitPositions s.seq s.ids s.values lattice precision
  | .velocities => c.submitVelocities s.seq s.ids s.values

theorem handle_eq (c : Collection) (s : Slice) :
    c.handle s = (told s (c.submit s).1, (c.submit s).2) := by
  obtain ⟨seq, patch, quantity, ids, values⟩ := s
  cases quantity with
  | positions lattice precision =>
    dsimp only [handle, submit]
    rcases c.submitPositions seq ids values lattice precision with ⟨r | frame | _, _⟩ <;> rfl
  | velocities =>
    dsimp only [handle, submit]
    rcases c.submitVelocities seq ids values with ⟨r | frame | _, _⟩ <;> rfl

/-- Atoms that are made up of as many particles as positions have just these. -/
theorem submitAtoms_zip (c : Collection) (seq : Nat) {ids : List ParticleId} {values : List Vec3}
    (heq : ids.length = values.length) (lattice : Lattice) (precision : Precision) :
    c.submitAtoms seq ((ids.zip values).map fun (id, v) => ⟨id, v⟩) lattice precision =
      c.submitPositions seq ids values lattice precision := by
  have hids := List.map_fst_zip (Nat.le_of_eq heq)
  have hvalues := List.map_snd_zip (Nat.le_of_eq heq.symm)
  rw [submitAtoms, List.map_map, List.map_map]
  exact congrArg₂ (c.submitPositions seq · · lattice precision) hids hvalues

/-- **A message is handled** as a direct call would be, and the outcome is told. -/
theorem handle_eq_direct (c : Collection) {s : Slice}
    (h : s.ids.length = s.values.length ∨ s.quantity = .velocities) :
    c.handle s = (told s (c.direct s).1, (c.direct s).2) := by
  have hsame : c.submit s = c.direct s := by
    rw [submit, direct]
    cases hquantity : s.quantity with
    | velocities => rfl
    | positions lattice precision =>
      have heq := h.resolve_right (hquantity ▸ nofun)
      exact (c.submitAtoms_zip s.seq heq lattice precision).symm
  rw [handle_eq, hsame]

/-- **A message with unequal lists** is refused. -/
theorem handle_of_unequal (c : Collection) {s : Slice} (h : s.ids.length ≠ s.values.length) :
    c.handle s =
      (some (.rejected s.seq s.patch (.mismatch s.seq s.ids.length s.values.length)), c) := by
  rw [handle_eq, submit]
  split <;> simp only [submitPositions, submitVelocities, Aggregator.submit, if_pos h, told]

/-- A message with two particles and one position. The atom that they make up could be handed in
directly. -/
theorem unequal_slice_refused :
    let c := new 2 4
    let s : Slice := ⟨1, ⟨0⟩, .positions (Lattice.cube 20) .high, [0, 1], [Vec3.zero]⟩
    (c.handle s).1 = some (.rejected 1 ⟨0⟩ (.mismatch 1 2 1)) ∧
      (c.direct s).1 = .ok none ∧ (c.handle s).1 ≠ told s (c.direct s).1 := by
  refine ⟨rfl, rfl, nofun⟩

/-! ## Messages and direct calls -/

/-- One of the two aggregators of a collection. -/
inductive Side where
  /-- the one of positions -/
  | positions
  /-- the one of velocities -/
  | velocities
  deriving DecidableEq

/-- The name of the quantity. -/
def Side.name : Side → String
  | .positions => "positions"
  | .velocities => "velocities"

/-- The aggregator on a side. -/
def aggregator (c : Collection) : Side → Aggregator
  | .positions => c.positions
  | .velocities => c.velocities

/-- A way to hand in a slice. -/
inductive Request where
  /-- a message to the collector -/
  | message (s : Slice)
  /-- the positions of atoms, handed in directly -/
  | atoms (seq : Nat) (list : List Atom) (lattice : Lattice) (precision : Precision)
  /-- velocities, handed in directly -/
  | velocities (seq : Nat) (ids : List ParticleId) (values : List Vec3)

/-- What comes of a request. -/
inductive Reply where
  /-- what the collector tells everybody -/
  | broadcast (b : Option Broadcast)
  /-- what the caller is answered -/
  | outcome (o : Except Refusal (Option Frame))

namespace Request

/-- The side that a request is for. -/
def side : Request → Side
  | .message ⟨_, _, .positions _ _, _, _⟩ => .positions
  | .message ⟨_, _, .velocities, _, _⟩ => .velocities
  | .atoms .. => .positions
  | .velocities .. => .velocities

/-- The slice that the aggregator of that side gets. -/
def slice : Request → Aggregator.Slice
  | .message ⟨seq, _, .positions lattice precision, ids, values⟩ =>
    ⟨seq, ids, values, precision, some lattice⟩
  | .message ⟨seq, _, .velocities, ids, values⟩ => ⟨seq, ids, values, .high, none⟩
  | .atoms seq list lattice precision =>
    ⟨seq, list.map Atom.id, list.map Atom.position, precision, some lattice⟩
  | .velocities seq ids values => ⟨seq, ids, values, .high, none⟩

/-- What comes of the request if that is the outcome for the slice. -/
def reply : Request → Except Refusal (Option Frame) → Reply
  | .message s, o => .broadcast (told s o)
  | _, o => .outcome o

end Request

/-- Answers a request. -/
def answer (c : Collection) : Request → Reply × Collection
  | .message s => let (b, c) := c.handle s; (.broadcast b, c)
  | .atoms seq list lattice precision =>
    let (o, c) := c.submitAtoms seq list lattice precision; (.outcome o, c)
  | .velocities seq ids values =>
    let (o, c) := c.submitVelocities seq ids values; (.outcome o, c)

/-- **What a request does**: its slice goes to the aggregator of its side, and the other one is left
alone. -/
theorem answer_eq (c : Collection) (r : Request) :
    (c.answer r).1 = r.reply ((c.aggregator r.side).hand r.slice).1 ∧
      ∀ side, (c.answer r).2.aggregator side =
        if side = r.side then ((c.aggregator r.side).hand r.slice).2 else c.aggregator side := by
  cases r with
  | message s =>
    rw [answer, handle_eq]
    obtain ⟨seq, patch, quantity, ids, values⟩ := s
    cases quantity <;> exact ⟨rfl, fun side => by cases side <;> rfl⟩
  | atoms seq list lattice precision => exact ⟨rfl, fun side => by cases side <;> rfl⟩
  | velocities seq ids values => exact ⟨rfl, fun side => by cases side <;> rfl⟩

/-- A request and what came of it. -/
structure Entry where
  /-- the request -/
  request : Request
  /-- what came of it -/
  reply : Reply

/-- A request and what comes of it with this collection. -/
def entry (c : Collection) (r : Request) : Entry := ⟨r, (c.answer r).1⟩

/-- The collection after some requests. -/
def after (c : Collection) (requests : List Request) : Collection :=
  requests.foldl (fun c r => (c.answer r).2) c

/-- What comes of some requests, in order. -/
def entries : Collection → List Request → List Entry := trace (fun c r => (c.answer r).2) entry

/-- The requests for one side. -/
def requestsFor (side : Side) (requests : List Request) : List Request :=
  requests.filter fun r => r.side = side

variable {c c' : Collection} {side : Side} {r : Request}

theorem requestsFor_cons_self (r : Request) (requests : List Request) :
    requestsFor r.side (r :: requests) = r :: requestsFor r.side requests :=
  List.filter_cons_of_pos (decide_eq_true rfl)

theorem requestsFor_cons_of_ne (hne : r.side ≠ side) (requests : List Request) :
    requestsFor side (r :: requests) = requestsFor side requests :=
  List.filter_cons_of_neg (by simpa using hne)

theorem entry_congr (h : c.aggregator r.side = c'.aggregator r.side) : c.entry r = c'.entry r := by
  rw [entry, entry, (c.answer_eq r).1, (c'.answer_eq r).1, h]

theorem aggregator_answer_self (h : c.aggregator r.side = c'.aggregator r.side) :
    (c.answer r).2.aggregator r.side = (c'.answer r).2.aggregator r.side := by
  rw [(c.answer_eq r).2, (c'.answer_eq r).2, if_pos rfl, if_pos rfl, h]

theorem aggregator_answer_of_ne (hne : r.side ≠ side) :
    (c.answer r).2.aggregator side = c.aggregator side := by
  rw [(c.answer_eq r).2, if_neg hne.symm]

/-- **What comes of the requests for one side** does not depend on the requests for the other. -/
theorem entries_filter (h : c.aggregator side = c'.aggregator side) (requests : List Request) :
    (c.entries requests).filter (fun e => e.request.side = side) =
      c'.entries (requestsFor side requests) := by
  induction requests generalizing c c' with
  | nil => rfl
  | cons r requests ih =>
    have hcut : c.entries (r :: requests) = c.entry r :: (c.answer r).2.entries requests := rfl
    rw [hcut]
    by_cases hside : r.side = side
    · subst hside
      rw [List.filter_cons_of_pos (by simp [entry]), requestsFor_cons_self,
        ih (aggregator_answer_self h), entry_congr h]
      rfl
    · rw [List.filter_cons_of_neg (by simp [entry, hside]), requestsFor_cons_of_ne hside]
      exact ih ((aggregator_answer_of_ne hside).trans h)

/-! ## Deliveries -/

namespace Entry

/-- The frame that came of the request, to everybody or to the caller. -/
def frame? (e : Entry) : Option Frame :=
  match e.reply with
  | .broadcast (some (.assembled _ frame)) => some frame
  | .outcome (.ok frame) => frame
  | _ => none

/-- The side and the number that were delivered. -/
def delivery? (e : Entry) : Option (Side × Nat) := e.frame?.map fun f => (e.request.side, f.seq)

end Entry

/-- The numbers delivered, each with its side. -/
def delivered (entries : List Entry) : List (Side × Nat) := entries.filterMap Entry.delivery?

/-- A request brings the frame that its slice brings. -/
theorem frame?_entry (c : Collection) (r : Request) :
    (c.entry r).frame? = ((c.aggregator r.side).event r.slice).frame? := by
  rw [Entry.frame?, entry, (c.answer_eq r).1, Aggregator.event, Aggregator.Event.frame?]
  dsimp only
  cases r <;> rcases (c.aggregator _).hand _ with ⟨r | frame | _, _⟩ <;> rfl

theorem delivered_append (entries more : List Entry) :
    delivered (entries ++ more) = delivered entries ++ delivered more := List.filterMap_append

/-- What one request delivers, its aggregator does. -/
theorem delivered_entry (c : Collection) (r : Request) :
    delivered [c.entry r] =
      (Aggregator.deliveries [(c.aggregator r.side).event r.slice]).map (Prod.mk r.side) := by
  have hframe := c.frame?_entry r
  rw [delivered, Aggregator.deliveries, List.filterMap_cons, List.filterMap_cons,
    Entry.delivery?, hframe]
  cases ((c.aggregator r.side).event r.slice).frame? <;> rfl

/-- **A number is delivered** as often as the aggregator of its side delivers it. -/
theorem count_delivered (c : Collection) (requests : List Request) (side : Side) (seq : Nat) :
    (delivered (c.entries requests)).count (side, seq) =
      (Aggregator.deliveries ((c.aggregator side).answers
        ((requestsFor side requests).map Request.slice))).count seq := by
  induction requests generalizing c with
  | nil => rfl
  | cons r requests ih =>
    have hcut : c.entries (r :: requests) = [c.entry r] ++ (c.answer r).2.entries requests := rfl
    rw [hcut, delivered_append, delivered_entry, List.count_append, ih]
    by_cases hside : r.side = side
    · subst hside
      have hnext : (c.answer r).2.aggregator r.side = ((c.aggregator r.side).hand r.slice).2 := by
        rw [(c.answer_eq r).2, if_pos rfl]
      have hanswers : (c.aggregator r.side).answers
          (r.slice :: (requestsFor r.side requests).map Request.slice) =
            [(c.aggregator r.side).event r.slice] ++ ((c.aggregator r.side).hand r.slice).2.answers
              ((requestsFor r.side requests).map Request.slice) := rfl
      rw [requestsFor_cons_self, List.map_cons, hanswers, Aggregator.deliveries_append,
        List.count_append, hnext,
        List.count_map_of_injective _ _ fun _ _ heq => (Prod.mk.inj heq).2]
    · rw [requestsFor_cons_of_ne hside, aggregator_answer_of_ne hside, List.count_eq_zero.mpr,
        Nat.zero_add]
      intro hmem
      obtain ⟨_, -, heq⟩ := List.mem_map.mp hmem
      exact hside (congrArg Prod.fst heq)

theorem aggregator_new (homes history : Nat) (side : Side) :
    (new homes history).aggregator side = Aggregator.new side.name homes history := by
  cases side <;> rfl

/-- **No number of either side is delivered twice**. -/
theorem nodup_delivered (homes history : Nat) (requests : List Request) :
    (delivered ((new homes history).entries requests)).Nodup := by
  refine List.nodup_iff_count_le_one.mpr fun (side, seq) => ?_
  rw [count_delivered, aggregator_new]
  exact List.nodup_iff_count_le_one.mp (Aggregator.agrees_after ..).nodup_deliveries seq

/-! ## The collector and its collection -/

/-- **A collector agrees with its collection.** Take a new collection and any messages to its
collector, and direct calls in between. A message is handled as a direct call with its slice would
be in the same state, and what is told is the outcome of that: nothing, the frame or the refusal.
Only a message with more positions than particles, or with fewer, is refused without further ado,
and nothing changes. No number of either quantity is delivered twice. And what comes of the messages
and calls about one quantity is what would come of them without those about the other one. -/
theorem collector_agrees (homes history : Nat) (requests : List Request) :
    let c := new homes history
    (∀ early s late, requests = early ++ .message s :: late →
      (s.ids.length = s.values.length ∨ s.quantity = .velocities →
        (c.after early).handle s =
          (told s ((c.after early).direct s).1, ((c.after early).direct s).2)) ∧
      (s.ids.length ≠ s.values.length →
        (c.after early).handle s =
          (some (.rejected s.seq s.patch (.mismatch s.seq s.ids.length s.values.length)),
            c.after early))) ∧
    (delivered (c.entries requests)).Nodup ∧
    ∀ side, (c.entries requests).filter (fun e => e.request.side = side) =
      c.entries (requestsFor side requests) := by
  intro c
  exact ⟨fun early s late _ => ⟨handle_eq_direct _, handle_of_unequal _⟩,
    nodup_delivered homes history requests, fun side => entries_filter rfl requests⟩

end Collection

end PatchDynamics
