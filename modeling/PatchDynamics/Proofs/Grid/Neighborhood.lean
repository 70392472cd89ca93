import PatchDynamics.Proofs.Grid.Adjacency

/-!
# The patches around a patch

On a grid whose cells can be numbered by 32-bit words, the number of a patch and its three cell
numbers determine each other, and the neighbours of a patch are the patches one step away at most
along each axis, the axes closing on themselves:

* `Fits.of_pow` — which grids these are: no cube is one more than the largest word;
* `pairwise_neighbors` — neighbours are listed in strictly ascending order;
* `Fits.length_around` — how many there are;
* `neighbors_exact` — all of it, from the numbers of patches and cells.
-/

namespace PatchDynamics

namespace Grid

variable {g : Grid} {p q : PatchId}

/-- The number of cells is a cube. -/
theorem cells_eq_pow (g : Grid) : g.cells = g.side ^ 3 := by
  rw [cells, pow_three', mul_assoc]

/-- A grid of up to 2 ^ 32 cells has fewer, as 2 ^ 32 is not a cube. -/
theorem Fits.of_pow (hside : 0 < g.side) (few : g.side ^ 3 ≤ 2 ^ 32) : g.Fits := by
  refine ⟨hside, ?_⟩
  have hle : g.side ≤ 1625 := by
    by_contra hlarge
    have hpow := Nat.pow_le_pow_left (show 1626 ≤ g.side by omega) 3
    omega
  have hpow := Nat.pow_le_pow_left hle 3
  rw [cells_eq_pow, UInt32.size]
  omega

/-- **The neighbours of a patch** are listed in strictly ascending order. -/
theorem pairwise_neighbors {around : List PatchId} (haround : g.neighbors p = .ok around) :
    around.Pairwise fun q r => q.number < r.number := by
  obtain ⟨all, rfl⟩ : ∃ all, around = ascending PatchId.le all := by
    rw [neighbors] at haround
    dsimp only [bind, Except.bind, pure, Except.pure] at haround
    split at haround
    · cases haround
    · split at haround
      · cases haround
      · exact ⟨_, (Except.ok.inj haround).symm⟩
  have hsorted : (ascending PatchId.le all).Pairwise fun q r => q.le r := by
    refine pairwise_ascending (fun a b c => ?_) (fun a b => ?_) all
    · simp only [PatchId.le, decide_eq_true_eq]
      exact UInt32.le_trans
    · simp only [PatchId.le, Bool.or_eq_true, decide_eq_true_eq]
      exact UInt32.le_total a.number b.number
  refine (hsorted.and (ascending_patches all).1).imp fun hboth => ?_
  obtain ⟨hle, hne⟩ := hboth
  rw [PatchId.le, decide_eq_true_eq] at hle
  exact UInt32.lt_of_le_of_ne hle fun heq => hne (congrArg PatchId.mk heq)

namespace Fits

theorem mem_patches_pow (h : g.Fits) : p ∈ g.patches ↔ p.number.toNat < g.side ^ 3 := by
  rw [h.mem_patches, cells_eq_pow]

/-- **How many neighbours a patch has.** -/
theorem length_around (h : g.Fits) (hp : p ∈ g.patches) :
    (g.around p).length = min 3 g.side ^ 3 - 1 := by
  obtain ⟨-, hnodup, hmem⟩ := h.mem_around p
  have htouched : (g.around p).toFinset = g.touched p := by
    ext q
    rw [List.mem_toFinset, hmem, touched, Finset.mem_filter, List.mem_toFinset]
  rw [← List.toFinset_card_of_nodup hnodup, htouched, h.card_touched hp]

end Fits

/-- **The neighbourhood of a patch.** Take a grid with cells, up to 2 ^ 32 of them. The patches
whose numbers are below the number of cells have three cell numbers below the side each, every such
three cell numbers have a patch, and one leads back to the other. The neighbours of such a patch are
such patches, in ascending order, as many as the cube of the side, or of three on a larger grid, has
besides the patch itself; they are the other patches whose cells differ by -1, 0 or 1 along each
axis, modulo the side. So one patch is among the neighbours of another exactly if that one is among
its own. -/
theorem neighbors_exact (hside : 0 < g.side) (few : g.side ^ 3 ≤ 2 ^ 32) :
    (∀ p : PatchId, p.number.toNat < g.side ^ 3 → ∃ x y z, g.coordinates p = .ok (x, y, z) ∧
      x < g.side ∧ y < g.side ∧ z < g.side ∧ g.patchAt x y z = .ok p) ∧
    (∀ x y z, x < g.side → y < g.side → z < g.side → ∃ p, g.patchAt x y z = .ok p ∧
      p.number.toNat < g.side ^ 3 ∧ g.coordinates p = .ok (x, y, z)) ∧
    ∀ p : PatchId, p.number.toNat < g.side ^ 3 → ∃ around, g.neighbors p = .ok around ∧
      (∀ q : PatchId, q.number.toNat < g.side ^ 3 → ∀ x y z x' y' z',
        g.coordinates p = .ok (x, y, z) → g.coordinates q = .ok (x', y', z') →
        (q ∈ around ↔ q ≠ p ∧ (∃ d ∈ ([-1, 0, 1] : List Int), (x' : Int) ≡ x + d [ZMOD g.side]) ∧
          (∃ d ∈ ([-1, 0, 1] : List Int), (y' : Int) ≡ y + d [ZMOD g.side]) ∧
          ∃ d ∈ ([-1, 0, 1] : List Int), (z' : Int) ≡ z + d [ZMOD g.side])) ∧
      (∀ q : PatchId, q.number.toNat < g.side ^ 3 → ∃ back, g.neighbors q = .ok back ∧
        (p ∈ back ↔ q ∈ around)) ∧
      p ∉ around ∧ (∀ q ∈ around, q.number.toNat < g.side ^ 3) ∧
      around.Pairwise (fun q r => q.number < r.number) ∧
      around.length = min 3 g.side ^ 3 - 1 := by
  have h : g.Fits := .of_pow hside few
  refine ⟨fun p hp => ?_, fun x y z hx hy hz => ?_, fun p hp => ?_⟩
  · obtain ⟨hx, hy, hz⟩ := h.cellsOf_lt (h.mem_patches_pow.mpr hp)
    exact ⟨_, _, _, h.coordinates_eq p, hx, hy, hz, g.patchAt_cellsOf p⟩
  · obtain ⟨p, hp, hmem⟩ := h.patchAt_mem hx hy hz
    refine ⟨p, hp, h.mem_patches_pow.mp hmem, ?_⟩
    rw [h.coordinates_eq, h.cellsOf_patchAt hx hy hz hp]
  · obtain ⟨haround, -, hmem⟩ := h.mem_around p
    have hp := h.mem_patches_pow.mpr hp
    refine ⟨g.around p, haround, fun q hq x y z x' y' z' hcells hcells' => ?_, fun q hq => ?_,
      fun hself => ?_, fun q hq => ?_, pairwise_neighbors haround, h.length_around hp⟩
    · rw [h.coordinates_eq] at hcells hcells'
      rw [hmem, Touches, Except.ok.inj hcells, Except.ok.inj hcells', ne_comm]
      exact and_iff_right (h.mem_patches_pow.mpr hq)
    · obtain ⟨hback, -, hmem'⟩ := h.mem_around q
      refine ⟨g.around q, hback, ?_⟩
      rw [hmem, hmem', and_iff_right hp, and_iff_right (h.mem_patches_pow.mpr hq)]
      exact ⟨Touches.symm, Touches.symm⟩
    · exact ((hmem p).mp hself).2.1 rfl
    · exact h.mem_patches_pow.mp ((hmem q).mp hq).1

/-- On the largest grid the first patch has 26 neighbours. The last patch is one of them, and the
third is not. -/
theorem neighbors_exact_largest :
    let g := Grid.new 1625 1
    let last : PatchId := ⟨4291015624⟩
    0 < g.side ∧ g.side ^ 3 ≤ 2 ^ 32 ∧ ∃ around, g.neighbors ⟨0⟩ = .ok around ∧
      around.length = 26 ∧ last ∈ around ∧ (⟨2⟩ : PatchId) ∉ around := by
  intro g last
  have hside : 0 < g.side := by decide
  have few : g.side ^ 3 ≤ 2 ^ 32 := by decide +kernel
  have hcells : ∀ p, g.coordinates p = .ok (g.cellsOf p) := (Fits.of_pow hside few).coordinates_eq
  obtain ⟨-, -, hneighbors⟩ := neighbors_exact hside few
  obtain ⟨around, haround, hmem, -, -, -, -, hlength⟩ := hneighbors ⟨0⟩ (by decide +kernel)
  refine ⟨hside, few, around, haround, hlength.trans (by decide +kernel), ?_, ?_⟩
  · rw [hmem last (by decide +kernel) _ _ _ _ _ _ (hcells _) (hcells _)]
    decide +kernel
  · rw [hmem ⟨2⟩ (by decide +kernel) _ _ _ _ _ _ (hcells _) (hcells _)]
    decide +kernel

end Grid

end PatchDynamics
