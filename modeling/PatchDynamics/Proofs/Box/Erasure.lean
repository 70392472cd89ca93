import Mathlib.Data.List.Nodup
import Mathlib.Data.Option.Basic
import PatchDynamics.Proofs.Box.Ledger

/-!
# Registrations that leave no trace

Two runs of requests are compared: one in which a compute registers at some places and leaves them
again, and one in which it never came.

* `Handle.renumbered` — the handle that takes the place of another one where some registrations were
  never made: a box counts its registrations, so later handles are numbered differently;
* `Book.Spares`, `Ledger.Spares` — books and ledgers that differ by these registrations only;
* `Ledger.Spares.after` — requests of others are answered alike;
* `Ledger.Enrols`, `Ledger.Resigns` — a compute registers at some places, and gives its handles
  back;
* `Ledger.resigned` — in the end the same computes are registered in both runs.
-/

namespace PatchDynamics

/-! ## Handles -/

/-- The request with another handle. -/
def Request.map (f : Handle → Handle) : Request → Request
  | .register task => .register task
  | .unregister h => .unregister (f h)

/-- The verdict with another handle. -/
def Verdict.map (f : Handle → Handle) : Verdict → Verdict
  | .refused => .refused
  | .issued h => .issued (f h)
  | .returned => .returned

/-- The handle among some that was issued by this box. -/
def goneFrom (gone : List Handle) (serial : Nat) : Option Handle :=
  gone.find? fun x => x.box = serial

/-- The handle that takes the place of this one where the handles `gone`, from different boxes, were
never issued. A handle that was issued later has the token before its own, and one with the token of
a handle that is gone has the token that no handle has. -/
def Handle.renumbered (gone : List Handle) (h : Handle) : Handle :=
  match goneFrom gone h.box with
  | none => h
  | some x =>
    { h with token := if h.token = x.token then 0 else if x.token < h.token then h.token - 1
      else h.token }

@[simp] theorem Handle.task_renumbered (gone : List Handle) (h : Handle) :
    (h.renumbered gone).task = h.task := by
  unfold Handle.renumbered
  split <;> rfl

@[simp] theorem Handle.box_renumbered (gone : List Handle) (h : Handle) :
    (h.renumbered gone).box = h.box := by
  unfold Handle.renumbered
  split <;> rfl

theorem mem_of_goneFrom {gone : List Handle} {serial : Nat} {x : Handle}
    (h : goneFrom gone serial = some x) : x ∈ gone ∧ x.box = serial := by
  have hbox := List.find?_some h
  exact ⟨List.mem_of_find?_eq_some h, of_decide_eq_true hbox⟩

/-- Handles of different boxes are told apart by their boxes. -/
theorem goneFrom_eq_some {gone : List Handle} (hboxes : (gone.map Handle.box).Nodup) {x : Handle}
    (hx : x ∈ gone) : goneFrom gone x.box = some x := by
  cases hfind : goneFrom gone x.box with
  | none => exact absurd (decide_eq_true rfl) (List.find?_eq_none.mp hfind x hx)
  | some y =>
    obtain ⟨hy, hbox⟩ := mem_of_goneFrom hfind
    rw [List.inj_on_of_nodup_map hboxes hy hx hbox]

theorem Handle.renumbered_of_none {gone : List Handle} {h : Handle}
    (hnone : goneFrom gone h.box = none) : h.renumbered gone = h := by
  rw [renumbered, hnone]

theorem Handle.token_renumbered {gone : List Handle} {h x : Handle}
    (hx : goneFrom gone h.box = some x) : (h.renumbered gone).token =
      if h.token = x.token then 0 else if x.token < h.token then h.token - 1 else h.token := by
  rw [renumbered, hx]

/-! ## Books that differ by one registration -/

namespace Book

variable {b b' : Book} {r : Request} {gone : List Handle} {x g h : Handle} {task : ComputeId}

/-- The second book is the first one without a registration that was made at some time, whether or
not it has ended. -/
structure Lacks (gone : List Handle) (x : Handle) (b b' : Book) : Prop where
  /-- it belongs to the same box -/
  serial : b'.serial = b.serial
  /-- the handle was issued -/
  dated : 0 < x.token ∧ x.token < b.next
  /-- no other handle has its token -/
  only : ∀ g ∈ b.handles, g.token = x.token → g = x
  /-- one token fewer was used -/
  next : b'.next + 1 = b.next
  /-- the other handles are out -/
  handles : b'.handles = (b.handles.filter (· ≠ x)).map (Handle.renumbered gone)

/-- The second book is the first one without what is gone. -/
def Spares (gone : List Handle) (b b' : Book) : Prop :=
  match goneFrom gone b.serial with
  | none => b' = b
  | some x => Lacks gone x b b'

theorem spares_of_none (hnone : goneFrom gone b.serial = none) : Spares gone b b' ↔ b' = b := by
  rw [Spares, hnone]

theorem spares_of_some (hx : goneFrom gone b.serial = some x) :
    Spares gone b b' ↔ Lacks gone x b b' := by
  rw [Spares, hx]

namespace Lacks

/-- Handles that are out are told apart by what takes their places. -/
theorem renumbered_inj (h : Lacks gone x b b') (hb : b.Sound)
    (hx : goneFrom gone b.serial = some x) (hg : g ∈ b.handles) (hgx : g ≠ x) {k : Handle}
    (hsame : k.renumbered gone = g.renumbered gone) : k = g := by
  have hgbox := hb.own g hg
  have hbox : k.box = g.box := by
    have hboxes := congrArg Handle.box hsame
    rwa [Handle.box_renumbered, Handle.box_renumbered] at hboxes
  have htask : k.task = g.task := by
    have htasks := congrArg Handle.task hsame
    rwa [Handle.task_renumbered, Handle.task_renumbered] at htasks
  have htoken : k.token = g.token := by
    have htokens := congrArg Handle.token hsame
    rw [Handle.token_renumbered (x := x) (by rw [hbox, hgbox, hx]),
      Handle.token_renumbered (x := x) (by rw [hgbox, hx])] at htokens
    -- the token of the handle that is out is neither zero nor that of the missing one
    have hne : g.token ≠ x.token := fun heq => hgx (h.only g hg heq)
    have hpos := (hb.dated g hg).1
    have hxpos := h.dated.1
    split at htokens <;> split at htokens <;> (try split at htokens) <;> omega
  cases k
  cases g
  simp_all

/-- A handle is out here if what takes its place is out there. -/
theorem mem_iff (h : Lacks gone x b b') (hb : b.Sound) (hx : goneFrom gone b.serial = some x)
    (hgx : g ≠ x) : g.renumbered gone ∈ b'.handles ↔ g ∈ b.handles := by
  rw [h.handles, List.mem_map]
  constructor
  · rintro ⟨k, hk, hsame⟩
    obtain ⟨hk, hkx⟩ := List.mem_filter.mp hk
    rwa [h.renumbered_inj hb hx hk (of_decide_eq_true hkx) hsame.symm]
  · exact fun hg => ⟨g, List.mem_filter.mpr ⟨hg, decide_eq_true hgx⟩, rfl⟩

/-- Other computes are registered there as they are here. -/
theorem mem_tasks_iff (h : Lacks gone x b b') (htask : task ≠ x.task) :
    task ∈ b'.tasks ↔ task ∈ b.tasks := by
  rw [tasks, tasks, h.handles, List.map_map, List.mem_map, List.mem_map]
  constructor
  · rintro ⟨g, hg, rfl⟩
    exact ⟨g, List.mem_of_mem_filter hg, (Handle.task_renumbered gone g).symm⟩
  · rintro ⟨g, hg, rfl⟩
    refine ⟨g, List.mem_filter.mpr ⟨hg, ?_⟩, Handle.task_renumbered gone g⟩
    exact decide_eq_true fun heq => htask (heq ▸ rfl)

/-- What takes the place of the next handle is the next handle there. -/
theorem renumbered_next (h : Lacks gone x b b') (hx : goneFrom gone b.serial = some x)
    (task : ComputeId) :
    Handle.renumbered gone ⟨b.serial, task, b.next⟩ = ⟨b'.serial, task, b'.next⟩ := by
  have hnext := h.next
  have hdated := h.dated
  rw [Handle.renumbered, hx, h.serial]
  dsimp only
  rw [if_neg (by omega), if_pos hdated.2]
  congr 1
  omega

theorem entered (h : Lacks gone x b b') (hx : goneFrom gone b.serial = some x)
    (task : ComputeId) : Lacks gone x (b.entered task) (b'.entered task) := by
  have hdated := h.dated
  have hnew : (⟨b.serial, task, b.next⟩ : Handle) ≠ x := fun heq =>
    absurd (congrArg Handle.token heq) (Nat.ne_of_gt hdated.2)
  refine ⟨h.serial, ⟨hdated.1, Nat.lt_succ_of_lt hdated.2⟩, fun g hg hsame => ?_, ?_, ?_⟩
  · rcases List.mem_append.mp hg with hg | hg
    · exact h.only g hg hsame
    · rw [List.mem_singleton.mp hg] at hsame
      exact absurd hsame (Nat.ne_of_gt hdated.2)
  · exact congrArg (· + 1) h.next
  · rw [Book.entered, Book.entered]
    dsimp only
    rw [List.filter_append, List.map_append, ← h.handles,
      List.filter_cons_of_pos (by simpa using hnew), List.filter_nil, List.map_singleton,
      h.renumbered_next hx]

theorem left (h : Lacks gone x b b') (hb : b.Sound) (hx : goneFrom gone b.serial = some x)
    (g : Handle) : Lacks gone x (b.left g) (b'.left (g.renumbered gone)) := by
  refine ⟨h.serial, h.dated, fun k hk => h.only k (List.mem_of_mem_filter hk), h.next, ?_⟩
  rw [Book.left, Book.left]
  dsimp only
  rw [h.handles, List.filter_map, List.filter_filter, List.filter_filter]
  refine congrArg (List.map _) (List.filter_congr fun k hk => ?_)
  -- among the other handles, exactly the one that is given back has its place taken
  rw [Bool.and_comm]
  by_cases hkx : k = x
  · simp [hkx]
  · have hiff : k.renumbered gone ≠ g.renumbered gone ↔ k ≠ g :=
      not_congr ⟨fun hsame => (h.renumbered_inj hb hx hk hkx hsame.symm).symm, fun heq => heq ▸ rfl⟩
    simp only [Function.comp, hiff]

/-- The end of the registration itself changes nothing there. -/
theorem resigned (h : Lacks gone x b b') : Lacks gone x (b.left x) b' := by
  refine ⟨h.serial, h.dated, fun k hk => h.only k (List.mem_of_mem_filter hk), h.next, ?_⟩
  rw [Book.left]
  dsimp only
  rw [List.filter_filter, h.handles]
  simp only [Bool.and_self]

/-- **A request of others** is answered alike. -/
theorem ask (h : Lacks gone x b b') (hb : b.Sound) (hx : goneFrom gone b.serial = some x)
    (hregister : r ≠ .register x.task) (hunregister : r ≠ .unregister x) :
    (b'.ask (r.map (Handle.renumbered gone))).1 = (b.ask r).1.map (Handle.renumbered gone) ∧
      Lacks gone x (b.ask r).2 (b'.ask (r.map (Handle.renumbered gone))).2 := by
  cases r with
  | register task =>
    have htask : task ≠ x.task := fun heq => hregister (heq ▸ rfl)
    rw [Request.map, Book.ask, Book.ask]
    by_cases hmem : task ∈ b.tasks
    · rw [if_pos ((h.mem_tasks_iff htask).mpr hmem), if_pos hmem]
      exact ⟨rfl, h⟩
    · rw [if_neg (mt (h.mem_tasks_iff htask).mp hmem), if_neg hmem]
      exact ⟨congrArg Verdict.issued (h.renumbered_next hx task).symm, h.entered hx task⟩
  | unregister g =>
    have hgx : g ≠ x := fun heq => hunregister (heq ▸ rfl)
    rw [Request.map, Book.ask, Book.ask]
    by_cases hmem : g ∈ b.handles
    · rw [if_pos ((h.mem_iff hb hx hgx).mpr hmem), if_pos hmem]
      exact ⟨rfl, h.left hb hx g⟩
    · rw [if_neg (mt (h.mem_iff hb hx hgx).mp hmem), if_neg hmem]
      exact ⟨rfl, h⟩

/-- Once the registration has ended, the same computes are registered. -/
theorem tasks_eq (h : Lacks gone x b b') (hended : x ∉ b.handles) : b'.tasks = b.tasks := by
  have hall : b.handles.filter (· ≠ x) = b.handles :=
    List.filter_eq_self.mpr fun g hg => decide_eq_true fun heq => hended (heq ▸ hg)
  rw [tasks, tasks, h.handles, hall, List.map_map]
  exact List.map_congr_left fun g _ => Handle.task_renumbered gone g

end Lacks

/-- A handle that has just been issued is what the book before lacks. -/
theorem lacks_entered (hb : b.Sound) (task : ComputeId) :
    let x : Handle := ⟨b.serial, task, b.next⟩
    goneFrom gone b.serial = some x → Lacks gone x (b.entered task) b := by
  intro x hx
  have hfresh : ∀ g ∈ b.handles, g ≠ x := fun g hg heq =>
    absurd (congrArg Handle.token heq) (Nat.ne_of_lt (hb.dated g hg).2)
  refine ⟨rfl, ⟨hb.positive, Nat.lt_succ_self _⟩, fun g hg hsame => ?_, rfl, ?_⟩
  · rcases List.mem_append.mp hg with hg | hg
    · exact absurd hsame (Nat.ne_of_lt (hb.dated g hg).2)
    · exact List.mem_singleton.mp hg
  · have hkept : (b.entered task).handles.filter (· ≠ x) = b.handles := by
      rw [Book.entered]
      dsimp only
      rw [List.filter_append, List.filter_eq_self.mpr fun g hg => decide_eq_true (hfresh g hg),
        List.filter_cons_of_neg (by simp [x]), List.filter_nil, List.append_nil]
    -- tokens that were issued earlier stay as they are
    rw [hkept]
    refine (List.map_id _).symm.trans (List.map_congr_left fun g hg => ?_)
    have hdated := (hb.dated g hg).2
    have hgone : goneFrom gone g.box = some x := by rw [hb.own g hg, hx]
    rw [Handle.renumbered, hgone]
    dsimp only [x, id]
    rw [if_neg (Nat.ne_of_lt hdated), if_neg (Nat.not_lt_of_gt hdated)]

/-- What is gone from another box does not matter. -/
theorem Spares.append_of_ne (h : Spares gone b b') (hb : b.Sound) (hne : x.box ≠ b.serial) :
    Spares (gone ++ [x]) b b' := by
  have hsame : ∀ n, n = b.serial → goneFrom (gone ++ [x]) n = goneFrom gone n := by
    rintro _ rfl
    rw [goneFrom, List.find?_append, List.find?_cons_of_neg (by simpa using hne), List.find?_nil,
      Option.or_none, goneFrom]
  rw [Spares, hsame _ rfl]
  rw [Spares] at h
  cases hx : goneFrom gone b.serial with
  | none =>
    rw [hx] at h
    exact h
  | some y =>
    rw [hx] at h
    refine ⟨h.serial, h.dated, h.only, h.next, h.handles.trans (List.map_congr_left fun g hg => ?_)⟩
    rw [Handle.renumbered, Handle.renumbered,
      hsame g.box (hb.own g (List.mem_of_mem_filter hg))]

/-- **A request of others** is answered alike. -/
theorem Spares.ask (h : Spares gone b b') (hb : b.Sound) (hforeign : ∀ x,
    goneFrom gone b.serial = some x → r ≠ .register x.task ∧ r ≠ .unregister x) :
    (b'.ask (r.map (Handle.renumbered gone))).1 = (b.ask r).1.map (Handle.renumbered gone) ∧
      Spares gone (b.ask r).2 (b'.ask (r.map (Handle.renumbered gone))).2 := by
  cases hx : goneFrom gone b.serial with
  | some x =>
    rw [spares_of_some (by rwa [serial_ask])]
    exact ((spares_of_some hx).mp h).ask hb hx (hforeign x hx).1 (hforeign x hx).2
  | none =>
    rw [spares_of_none (by rwa [serial_ask]), (spares_of_none hx).mp h]
    cases r with
    | register task =>
      rw [Request.map, Book.ask]
      split
      · exact ⟨rfl, rfl⟩
      · exact ⟨congrArg Verdict.issued (Handle.renumbered_of_none hx).symm, rfl⟩
    | unregister g =>
      rw [Request.map, Book.ask, Book.ask]
      by_cases hbox : g.box = b.serial
      · -- the handle is one of this box, and none of these has another number there
        rw [Handle.renumbered_of_none (by rwa [hbox])]
        split <;> exact ⟨rfl, rfl⟩
      · have hnot : ∀ k : Handle, k.box = g.box → k ∉ b.handles := fun k hk hmem =>
          hbox (hk ▸ hb.own k hmem)
        rw [if_neg (hnot _ (Handle.box_renumbered gone g)), if_neg (hnot g rfl)]
        exact ⟨rfl, rfl⟩

/-- The end of a registration that is gone changes nothing there. -/
theorem Spares.resigned (h : Spares gone b b') (hx : goneFrom gone x.box = some x)
    (hbox : x.box = b.serial) : Spares gone (b.left x) b' := by
  rw [hbox] at hx
  exact (spares_of_some (b := b.left x) hx).mpr ((spares_of_some hx).mp h).resigned

/-- Once the registrations have ended, the same computes are registered. -/
theorem Spares.tasks_eq (h : Spares gone b b') (hended : ∀ x ∈ gone, x ∉ b.handles) :
    b'.tasks = b.tasks := by
  cases hx : goneFrom gone b.serial with
  | none => rw [(spares_of_none hx).mp h]
  | some x => exact ((spares_of_some hx).mp h).tasks_eq (hended x (mem_of_goneFrom hx).1)

end Book

namespace Ledger

/-! ## Ledgers that differ by what is gone -/

section Erasure

variable {ι : Type} [DecidableEq ι] {l l' l₁ : Ledger ι} {i j : ι} {r : Request} {b : Book}
  {gone : List Handle} {held more : List (ι × Handle)} {task : ComputeId} {x : Handle}

/-- The second ledger is the first one without what is gone. -/
def Spares (gone : List Handle) (l l' : Ledger ι) : Prop :=
  ∀ i, Option.Rel (Book.Spares gone) (l i) (l' i)

omit [DecidableEq ι] in
theorem spares_nil (l : Ledger ι) : Spares [] l l := by
  intro i
  cases l i with
  | none => exact .none
  | some b => exact .some ((Book.spares_of_none rfl).mpr rfl)

/-- A request of others: it does not register the computes that are gone where they were, and it
does not give back their handles. -/
def Foreign (gone : List Handle) (serials : ι → Option Nat) (q : ι × Request) : Prop :=
  ∀ n x, serials q.1 = some n → goneFrom gone n = some x →
    q.2 ≠ .register x.task ∧ q.2 ≠ .unregister x

/-- **A request of others** is answered alike. -/
theorem Spares.next (h : Spares gone l l') (hl : l.Sound)
    (hforeign : Foreign gone l.serials (i, r)) :
    l'.verdict i (r.map (Handle.renumbered gone)) =
        (l.verdict i r).map (Handle.renumbered gone) ∧
      Spares gone (l.next i r) (l'.next i (r.map (Handle.renumbered gone))) := by
  have hboth : ∀ b b', l i = some b → Book.Spares gone b b' →
      (b'.ask (r.map (Handle.renumbered gone))).1 =
          (b.ask r).1.map (Handle.renumbered gone) ∧
        Book.Spares gone (b.ask r).2 (b'.ask (r.map (Handle.renumbered gone))).2 :=
    fun b b' hb hspares => hspares.ask (hl.books i b hb) fun x hx =>
      hforeign b.serial x (serials_of_some hb) hx
  constructor
  · have hi := h i
    rw [verdict, verdict]
    generalize hb : l i = book, l' i = book' at hi
    cases hi with
    | none => rfl
    | some hspares => exact (hboth _ _ hb hspares).1
  · intro j
    by_cases hsame : j = i
    · have hi := h i
      rw [hsame, next_self, next_self]
      generalize hb : l i = book, l' i = book' at hi
      cases hi with
      | none => exact .none
      | some hspares => exact .some (hboth _ _ hb hspares).2
    · rw [next_of_ne l r hsame, next_of_ne l' _ hsame]
      exact h j

/-- **Requests of others** are answered alike. -/
theorem Spares.after (h : Spares gone l l') (hl : l.Sound) {requests : List (ι × Request)}
    (hforeign : ∀ q ∈ requests, Foreign gone l.serials q) :
    l'.verdicts (requests.map fun q => (q.1, q.2.map (Handle.renumbered gone))) =
        (l.verdicts requests).map (Verdict.map (Handle.renumbered gone)) ∧
      Spares gone (l.after requests)
        (l'.after (requests.map fun q => (q.1, q.2.map (Handle.renumbered gone)))) := by
  induction requests generalizing l l' with
  | nil => exact ⟨rfl, h⟩
  | cons q requests ih =>
    rw [List.forall_mem_cons] at hforeign
    obtain ⟨hfirst, hnext⟩ := h.next hl hforeign.1
    rw [← serials_next l q.1 q.2] at hforeign
    obtain ⟨hrest, hafter⟩ := ih hnext (hl.next q.1 q.2) hforeign.2
    refine ⟨?_, hafter⟩
    rw [verdicts, List.map_cons, trace, trace, List.map_cons]
    exact congrArg₂ _ hfirst hrest

/-- The end of a registration that is gone changes nothing there. -/
theorem Spares.resigned (h : Spares gone l l') (hl : l.Sound) (hx : goneFrom gone x.box = some x)
    (i : ι) : Spares gone (l.next i (.unregister x)) l' := by
  intro j
  by_cases hsame : j = i
  · have hi := h i
    rw [hsame, next_self]
    generalize hb : l i = book, l' i = book' at hi
    cases hi with
    | none => exact .none
    | @some b b' hspares =>
      refine .some ?_
      change Book.Spares gone (b.ask (.unregister x)).2 b'
      rw [Book.ask]
      split
      · next hmem => exact hspares.resigned hx ((hl.books i b hb).own x hmem)
      · exact hspares
  · rw [next_of_ne l _ hsame]
    exact h j

/-! ## Registrations that are given back -/

/-- A compute registers at some places, one after the other, and gets a handle at each. -/
inductive Enrols (task : ComputeId) : List (ι × Handle) → Ledger ι → Ledger ι → Prop where
  /-- at no place -/
  | nil (l : Ledger ι) : Enrols task [] l l
  /-- at one place and then at others -/
  | cons {i : ι} {x : Handle} {held : List (ι × Handle)} {l l' : Ledger ι}
    (first : l.verdict i (.register task) = .issued x)
    (rest : Enrols task held (l.next i (.register task)) l') : Enrols task ((i, x) :: held) l l'

/-- Handles are given back at some places, one after the other, and taken at each. -/
inductive Resigns : List (ι × Handle) → Ledger ι → Ledger ι → Prop where
  /-- at no place -/
  | nil (l : Ledger ι) : Resigns [] l l
  /-- at one place and then at others -/
  | cons {i : ι} {x : Handle} {held : List (ι × Handle)} {l l' : Ledger ι}
    (first : l.verdict i (.unregister x) = .returned)
    (rest : Resigns held (l.next i (.unregister x)) l') : Resigns ((i, x) :: held) l l'

theorem Enrols.append (h : Enrols task held l l₁) (hmore : Enrols task more l₁ l') :
    Enrols task (held ++ more) l l' := by
  induction h with
  | nil => exact hmore
  | cons first _ ih => exact .cons first (ih hmore)

theorem Resigns.of_append (h : Resigns (held ++ more) l l') :
    ∃ l₁, Resigns held l l₁ ∧ Resigns more l₁ l' := by
  induction held generalizing l with
  | nil => exact ⟨l, .nil l, h⟩
  | cons q held ih =>
    cases h with
    | cons first rest =>
      obtain ⟨l₁, hheld, hmore⟩ := ih rest
      exact ⟨l₁, .cons first hheld, hmore⟩

/-- Handles of a compute are out at some places. -/
def Live (task : ComputeId) (held : List (ι × Handle)) (l : Ledger ι) : Prop :=
  ∀ q ∈ held, q.2.task = task ∧ ∃ b, l q.1 = some b ∧ q.2 ∈ b.handles

omit [DecidableEq ι] in
theorem Live.box_eq (h : Live task held l) (hl : l.Sound) {q : ι × Handle} (hq : q ∈ held) :
    l.serials q.1 = some q.2.box := by
  obtain ⟨-, b, hb, hmem⟩ := h q hq
  rw [serials_of_some hb, (hl.books q.1 b hb).own q.2 hmem]

/-- Handles stay out until they are given back. -/
theorem Live.next (h : Live task held l) (hkeeps : ∀ q ∈ held, q.1 = i → r ≠ .unregister q.2) :
    Live task held (l.next i r) := by
  intro q hq
  obtain ⟨htask, b, hb, hmem⟩ := h q hq
  refine ⟨htask, ?_⟩
  by_cases hsame : q.1 = i
  · refine ⟨(b.ask r).2, by rw [hsame, next_self, ← hsame, hb, Option.map_some], ?_⟩
    cases r with
    | register other =>
      rw [Book.ask]
      split
      · exact hmem
      · exact List.mem_append_left _ hmem
    | unregister g =>
      have hne : q.2 ≠ g := fun heq => hkeeps q hq hsame (heq ▸ rfl)
      rw [Book.ask]
      split
      · exact List.mem_filter.mpr ⟨hmem, decide_eq_true hne⟩
      · exact hmem
  · exact ⟨b, by rw [next_of_ne l r hsame, hb], hmem⟩

theorem Live.after (h : Live task held l) {requests : List (ι × Request)}
    (hkeeps : ∀ q ∈ held, (q.1, Request.unregister q.2) ∉ requests) :
    Live task held (l.after requests) := by
  induction requests generalizing l with
  | nil => exact h
  | cons p requests ih =>
    refine ih (h.next fun q hq hplace heq => ?_) fun q hq hmem =>
      hkeeps q hq (List.mem_cons_of_mem _ hmem)
    exact hkeeps q hq (List.mem_cons.mpr (.inl (Prod.ext hplace heq.symm)))

/-- What a registration that succeeds has found. -/
theorem issued_of_verdict (h : l.verdict i (.register task) = .issued x) :
    ∃ b, l i = some b ∧ task ∉ b.tasks ∧ x = ⟨b.serial, task, b.next⟩ ∧
      l.next i (.register task) i = some (b.entered task) := by
  rw [verdict] at h
  cases hb : l i with
  | none =>
    rw [hb] at h
    cases h
  | some b =>
    rw [hb] at h
    dsimp only at h
    rw [Book.ask] at h
    split at h
    · cases h
    · next hfree =>
      cases h
      refine ⟨b, rfl, hfree, rfl, ?_⟩
      rw [next_self, hb, Option.map_some, Book.ask, if_neg hfree]

/-- A compute that can be registered at a place has no handle from there. -/
theorem Live.goneFrom_eq_none (h : Live task held l) (hl : l.Sound)
    (hissued : l.verdict i (.register task) = .issued x) :
    goneFrom (held.map Prod.snd) x.box = none := by
  obtain ⟨b, hb, hfree, rfl, -⟩ := issued_of_verdict hissued
  rw [goneFrom, List.find?_eq_none]
  intro y hy hsame
  obtain ⟨⟨j, y⟩, hq, rfl⟩ := List.mem_map.mp hy
  obtain ⟨htask, c, hc, hmem⟩ := h (j, y) hq
  obtain rfl := hl.place_eq hc hmem hb (of_decide_eq_true hsame)
  cases hb.symm.trans hc
  exact hfree (List.mem_map.mpr ⟨y, hmem, htask⟩)

/-- One more registration is gone. -/
theorem Spares.enrolled (h : Spares gone l l') (hl : l.Sound)
    (hissued : l.verdict i (.register task) = .issued x)
    (hnone : goneFrom gone x.box = none) :
    Spares (gone ++ [x]) (l.next i (.register task)) l' := by
  obtain ⟨b, hb, hfree, rfl, hnext⟩ := issued_of_verdict hissued
  intro j
  by_cases hsame : j = i
  · have hi := h i
    rw [hb] at hi
    rw [hsame, hnext]
    generalize l' i = book' at hi
    cases hi with
    | some hspares =>
      rw [Book.spares_of_none hnone] at hspares
      have hx : goneFrom (gone ++ [⟨b.serial, task, b.next⟩]) b.serial =
          some ⟨b.serial, task, b.next⟩ := by
        rw [goneFrom, List.find?_append, ← goneFrom, hnone]
        simp
      rw [hspares]
      refine .some ((Book.spares_of_some (b := b.entered task) hx).mpr ?_)
      exact Book.lacks_entered (hl.books i b hb) task hx
  · have hj := h j
    rw [next_of_ne l _ hsame]
    generalize hc : l j = book, l' j = book' at hj
    cases hj with
    | none => exact .none
    | @some c c' hspares =>
      refine .some (hspares.append_of_ne (hl.books j c hc) fun heq => hsame ?_)
      exact hl.apart j i c.serial (serials_of_some hc) (by rw [serials_of_some hb, ← heq])

/-- **All registrations are gone.** -/
theorem Enrols.spares (h : Enrols task held l l₁) (hl : l.Sound) {before : List (ι × Handle)}
    (hspares : Spares (before.map Prod.snd) l l') (hlive : Live task before l)
    (hboxes : (before.map fun q => q.2.box).Nodup) :
    l₁.Sound ∧ Spares ((before ++ held).map Prod.snd) l₁ l' ∧ Live task (before ++ held) l₁ ∧
      ((before ++ held).map fun q => q.2.box).Nodup := by
  induction h generalizing before with
  | nil l =>
    rw [List.append_nil]
    exact ⟨hl, hspares, hlive, hboxes⟩
  | @cons i x held l l₁ first rest ih =>
    have hnone := hlive.goneFrom_eq_none hl first
    obtain ⟨b, hb, hfree, hx, hnext⟩ := issued_of_verdict first
    have hlive' : Live task (before ++ [(i, x)]) (l.next i (.register task)) := by
      intro q hq
      rcases List.mem_append.mp hq with hq | hq
      · exact hlive.next (r := .register task) (fun _ _ _ heq => Request.noConfusion heq) q hq
      · rw [List.mem_singleton.mp hq, hx]
        exact ⟨rfl, _, hnext, List.mem_append_right _ List.mem_cons_self⟩
    have hboxes' : ((before ++ [(i, x)]).map fun q => q.2.box).Nodup := by
      rw [List.map_append, List.nodup_append]
      refine ⟨hboxes, List.nodup_singleton _, fun n hn m hm heq => ?_⟩
      obtain ⟨q, hq, rfl⟩ := List.mem_map.mp hn
      rw [List.map_singleton, List.mem_singleton] at hm
      exact List.find?_eq_none.mp hnone q.2 (List.mem_map_of_mem hq)
        (decide_eq_true (heq.trans hm))
    have hspares' : Spares ((before ++ [(i, x)]).map Prod.snd) (l.next i (.register task)) l' := by
      rw [List.map_append]
      exact hspares.enrolled hl first hnone
    rw [List.append_cons]
    exact ih (hl.next i _) hspares' hlive' hboxes'

/-- **All handles can be given back**, and none of them is out any more. -/
theorem Live.resigns (hl : l.Sound) (hlive : Live task held l)
    (hboxes : (held.map fun q => q.2.box).Nodup) (hspares : Spares gone l l')
    (hgone : ∀ q ∈ held, goneFrom gone q.2.box = some q.2) :
    ∃ l₃, Resigns held l l₃ ∧ Spares gone l₃ l' ∧
      ∀ i b, l₃ i = some b → (∃ c, l i = some c ∧ b.handles.Sublist c.handles) ∧
        ∀ q ∈ held, q.2 ∉ b.handles := by
  induction held generalizing l with
  | nil => exact ⟨l, .nil l, hspares, fun i b hb => ⟨⟨b, hb, .refl _⟩, nofun⟩⟩
  | cons q held ih =>
    obtain ⟨i, x⟩ := q
    rw [List.map_cons, List.nodup_cons] at hboxes
    rw [List.forall_mem_cons] at hgone
    obtain ⟨-, b, hb, hmem⟩ := hlive (i, x) List.mem_cons_self
    have hreturned : l.verdict i (.unregister x) = .returned := by
      rw [verdict_of_some hb, Book.ask, if_pos hmem]
    have hothers : Live task held (l.next i (.unregister x)) := by
      refine Live.next (fun q hq => hlive q (List.mem_cons_of_mem _ hq)) fun q hq _ heq => ?_
      cases heq
      exact hboxes.1 (List.mem_map.mpr ⟨q, hq, rfl⟩)
    obtain ⟨l₃, hresigns, hspares₃, hrest⟩ := ih (hl.next i _) hothers hboxes.2
      (hspares.resigned hl hgone.1 i) hgone.2
    refine ⟨l₃, .cons hreturned hresigns, hspares₃, fun j c hc => ?_⟩
    obtain ⟨⟨d, hd, hsub⟩, hnone⟩ := hrest j c hc
    rw [List.forall_mem_cons]
    by_cases hsame : j = i
    · -- the handle went first, and what is out since was out before
      subst hsame
      rw [next_self, hb, Option.map_some, Book.ask, if_pos hmem, Option.some_inj] at hd
      subst hd
      refine ⟨⟨b, hb, hsub.trans List.filter_sublist⟩, fun hx => ?_, hnone⟩
      have hx := List.mem_filter.mp (hsub.subset hx)
      exact absurd rfl (of_decide_eq_true hx.2)
    · rw [next_of_ne l _ hsame] at hd
      refine ⟨⟨d, hd, hsub⟩, fun hx => hsame ?_, hnone⟩
      exact hl.place_eq hb hmem hd ((hl.books j d hd).own x (hsub.subset hx))

/-- **Registrations that are given back leave no trace.** A compute registers at some places; then
others make any requests; then the compute gives its handles back. All are taken back, the others
were answered as if the compute had never come, and in the end the same computes are registered
everywhere, in the same order. -/
theorem resigned (hl : l.Sound) (henrols : Enrols task held l l₁) (requests : List (ι × Request))
    (hregister : ∀ q ∈ held, (q.1, Request.register task) ∉ requests)
    (hunregister : ∀ q ∈ held, (q.1, Request.unregister q.2) ∉ requests) :
    let others := requests.map fun q =>
      (q.1, q.2.map (Handle.renumbered (held.map Prod.snd)))
    l.verdicts others =
        (l₁.verdicts requests).map (Verdict.map (Handle.renumbered (held.map Prod.snd))) ∧
      ∃ l₃, Resigns held (l₁.after requests) l₃ ∧
        ∀ i, (l₃ i).map Book.tasks = (l.after others i).map Book.tasks := by
  intro others
  have hnil : Spares (([] : List (ι × Handle)).map Prod.snd) l l := spares_nil l
  obtain ⟨hsound, hspares, hlive, hboxes⟩ := henrols.spares hl hnil nofun List.nodup_nil
  rw [List.nil_append] at hspares hlive hboxes
  have hgone : ∀ q ∈ held, goneFrom (held.map Prod.snd) q.2.box = some q.2 := fun q hq =>
    goneFrom_eq_some (by rwa [List.map_map]) (List.mem_map_of_mem hq)
  -- a box that issued one of the handles is at the place where it was issued
  have hforeign : ∀ q ∈ requests, Foreign (held.map Prod.snd) l₁.serials q := by
    intro q hq n x hn hx
    obtain ⟨hmem, hbox⟩ := mem_of_goneFrom hx
    obtain ⟨⟨j, x⟩, hj, rfl⟩ := List.mem_map.mp hmem
    have hplace := hsound.apart q.1 j n hn (by rw [hlive.box_eq hsound hj, hbox])
    rw [(hlive _ hj).1]
    obtain ⟨i, r⟩ := q
    obtain rfl : i = j := hplace
    exact ⟨fun heq => hregister _ hj (heq ▸ hq), fun heq => hunregister _ hj (heq ▸ hq)⟩
  obtain ⟨hverdicts, hafter⟩ := hspares.after hsound hforeign
  refine ⟨hverdicts, ?_⟩
  have hstill := hlive.after hunregister
  obtain ⟨l₃, hresigns, hspares₃, hrest⟩ :=
    hstill.resigns (hsound.after requests) hboxes hafter hgone
  refine ⟨l₃, hresigns, fun i => ?_⟩
  have hi := hspares₃ i
  generalize hb : l₃ i = book, l.after others i = book' at hi
  cases hi with
  | none => rfl
  | @some b b' hlast =>
    refine congrArg some (hlast.tasks_eq fun x hx => ?_).symm
    obtain ⟨q, hq, rfl⟩ := List.mem_map.mp hx
    exact (hrest i b hb).2 q hq

end Erasure

end Ledger

end PatchDynamics
