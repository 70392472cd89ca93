import Mathlib

/-!
# Rounding to the nearest number of 53 bits

The result of an arithmetic operation on double-precision numbers is the exact result, rounded to 53
significant bits, or to a multiple of `2 ^ (-1074)` where it is too small to have so many. Of two
numbers equally near, it is the one whose last bit is zero. This is what that says of rational
numbers, with no bound on how large they are:

* `Place y t` — in numbers as large as `y` the last bit counts `2 ^ t`;
* `Rounded y z` — `z` is what `y` is rounded to;
* `Representable r` — `r` has 53 significant bits, so that it is rounded to itself.

The lemmas are those that proofs about arithmetic are made of: rounding keeps the order towards
representable numbers, keeps representable numbers, and its error is bounded.
-/

namespace PatchDynamics.Rounding

variable {y z r s : ℚ} {t u : ℤ} {n : ℤ}

theorem unit_pos (t : ℤ) : (0 : ℚ) < 2 ^ t := zpow_pos (by norm_num) t

theorem unit_add (t u : ℤ) : (2 : ℚ) ^ (t + u) = 2 ^ t * 2 ^ u := zpow_add₀ (by norm_num) t u

theorem unit_succ (t : ℤ) : (2 : ℚ) ^ (t + 1) = 2 * 2 ^ t := by
  rw [zpow_add_one₀ two_ne_zero, mul_comm]

theorem unit_le_unit (h : t ≤ u) : (2 : ℚ) ^ t ≤ 2 ^ u := zpow_le_zpow_right₀ (by norm_num) h

theorem unit_lt_unit (h : t < u) : (2 : ℚ) ^ t < 2 ^ u := zpow_lt_zpow_right₀ (by norm_num) h

theorem lt_of_unit_lt (h : (2 : ℚ) ^ t < 2 ^ u) : t < u :=
  (zpow_lt_zpow_iff_right₀ (by norm_num)).mp h

/-! ## Multiples of a unit -/

/-- A number all of whose bits count `2 ^ t` or more. -/
def Multiple (t : ℤ) (r : ℚ) : Prop := ∃ n : ℤ, r = n * 2 ^ t

namespace Multiple

theorem zero (t : ℤ) : Multiple t 0 := ⟨0, by simp⟩

theorem unit (h : t ≤ u) : Multiple t (2 ^ u) := by
  obtain ⟨k, rfl⟩ := Int.le.dest h
  exact ⟨2 ^ k, by rw [unit_add, mul_comm]; norm_num⟩

theorem neg (h : Multiple t r) : Multiple t (-r) := by
  obtain ⟨n, rfl⟩ := h
  exact ⟨-n, by push_cast; ring⟩

theorem add (hr : Multiple t r) (hs : Multiple t s) : Multiple t (r + s) := by
  obtain ⟨n, rfl⟩ := hr
  obtain ⟨m, rfl⟩ := hs
  exact ⟨n + m, by push_cast; ring⟩

theorem sub (hr : Multiple t r) (hs : Multiple t s) : Multiple t (r - s) := by
  rw [sub_eq_add_neg]
  exact hr.add hs.neg

theorem int_mul (h : Multiple t r) (n : ℤ) : Multiple t (n * r) := by
  obtain ⟨m, rfl⟩ := h
  exact ⟨n * m, by push_cast; ring⟩

/-- A multiple of a larger unit is one of a smaller unit. -/
theorem mono (h : Multiple u r) (hle : t ≤ u) : Multiple t r := by
  obtain ⟨n, rfl⟩ := h
  exact (unit hle).int_mul n

/-- Between two multiples there is a whole unit. -/
theorem add_unit_le (hr : Multiple t r) (hs : Multiple t s) (h : r < s) : r + 2 ^ t ≤ s := by
  obtain ⟨n, rfl⟩ := hr
  obtain ⟨m, rfl⟩ := hs
  have hunit := unit_pos t
  have hlt : (n : ℚ) < m := lt_of_mul_lt_mul_right h hunit.le
  have hle : (n : ℚ) + 1 ≤ m := by exact_mod_cast (by exact_mod_cast hlt : n < m)
  nlinarith

end Multiple

/-! ## Numbers of 53 bits -/

/-- A number that is written with 53 bits, none of which counts less than `2 ^ (-1074)`. -/
def Representable (r : ℚ) : Prop := ∃ t : ℤ, -1074 ≤ t ∧ Multiple t r ∧ |r| ≤ 2 ^ (t + 53)

namespace Representable

theorem zero : Representable 0 :=
  ⟨0, by norm_num, .zero 0, by rw [abs_zero]; exact (unit_pos _).le⟩

theorem neg (h : Representable r) : Representable (-r) := by
  obtain ⟨t, ht, hmul, hle⟩ := h
  exact ⟨t, ht, hmul.neg, by rwa [abs_neg]⟩

/-- Every bit counts at least the smallest unit. -/
theorem multiple (h : Representable r) : Multiple (-1074) r := by
  obtain ⟨t, ht, hmul, -⟩ := h
  exact hmul.mono ht

/-- A power of two has one bit. -/
theorem unit (h : -1074 ≤ t) : Representable (2 ^ t) :=
  ⟨t, h, .unit le_rfl, by rw [abs_of_pos (unit_pos t)]; exact unit_le_unit (by omega)⟩

/-- A large number has no bits that count little. -/
theorem multiple_of_le (h : Representable r) (hle : 2 ^ (u + 52) ≤ |r|) : Multiple u r := by
  obtain ⟨t, ht, hmul, hr⟩ := h
  rcases le_or_gt u t with hut | hut
  · exact hmul.mono hut
  · -- the number is the power of two that takes one bit more
    have htu : t + 53 = u + 52 := by
      by_contra hne
      exact absurd (hle.trans hr) (unit_lt_unit (by omega)).not_ge
    rw [htu] at hr
    rcases eq_or_eq_neg_of_abs_eq (le_antisymm hr hle) with rfl | rfl
    · exact .unit (by omega)
    · exact (Multiple.unit (by omega)).neg

/-- A power of two as a factor moves the bits, down to the smallest unit. -/
theorem mul_unit (h : Representable r) (hr : Multiple t r) (hle : -1074 ≤ t + u) :
    Representable (r * 2 ^ u) := by
  have hscaled : ∀ {v : ℤ}, -1074 ≤ v + u → Multiple v r → |r| ≤ 2 ^ (v + 53) →
      Representable (r * 2 ^ u) := by
    intro v hv hmul habs
    obtain ⟨n, rfl⟩ := hmul
    have hunit := unit_pos u
    refine ⟨v + u, hv, ⟨n, by rw [unit_add, mul_assoc]⟩, ?_⟩
    rw [abs_mul, abs_of_pos hunit, show v + u + 53 = v + 53 + u by ring, unit_add]
    exact mul_le_mul_of_nonneg_right habs hunit.le
  obtain ⟨v, -, hmul, habs⟩ := h
  rcases le_total t v with htv | hvt
  · exact hscaled (by omega) hmul habs
  · exact hscaled hle hr (habs.trans (unit_le_unit (by omega)))

theorem double (h : Representable r) : Representable (2 * r) := by
  have htwice := h.mul_unit h.multiple (show -1074 ≤ -1074 + 1 by norm_num)
  rwa [zpow_one, mul_comm] at htwice

theorem one : Representable 1 := by simpa using unit (show (-1074 : ℤ) ≤ 0 by norm_num)

/-- The number next to one. -/
theorem pred_one : Representable (1 - 1 / 2 ^ 53) :=
  ⟨-53, by norm_num, ⟨2 ^ 53 - 1, by norm_num⟩, by rw [abs_of_pos] <;> norm_num⟩

/-- **Two numbers are not too near to each other**, measured by the larger one. -/
theorem le_of_lt (hr : Representable r) (hs : Representable s) (hpos : 0 < s) (hlt : r < s) :
    r ≤ s * (1 - 1 / 2 ^ 53) := by
  obtain ⟨t, -, hrt, hrle⟩ := hr
  obtain ⟨u, -, hsu, hsle⟩ := hs
  rw [abs_of_pos hpos] at hsle
  -- a unit between them that `s` is not too large for is enough
  have henough : ∀ {v : ℤ} {q : ℚ}, r ≤ q → q + 2 ^ v ≤ s → s ≤ 2 ^ (v + 53) →
      r ≤ s * (1 - 1 / 2 ^ 53) := by
    intro v q hrq hqs hsv
    rw [unit_add] at hsv
    norm_num at hsv ⊢
    linarith
  by_cases hsmall : s ≤ 2 ^ (t + 53)
  · refine henough (v := min t u) le_rfl
      ((hrt.mono (min_le_left t u)).add_unit_le (hsu.mono (min_le_right t u)) hlt) ?_
    rcases min_choice t u with h | h <;> rw [h] <;> assumption
  · have hbound : r ≤ 2 ^ (t + 53) := (le_abs_self r).trans hrle
    rcases le_or_gt u (t + 53) with hu | hu
    · exact henough hbound ((Multiple.unit hu).add_unit_le hsu (not_le.mp hsmall)) hsle
    · -- here `r` is half as large at most
      have hunit := (Multiple.zero u).add_unit_le hsu hpos
      have hhalf : (2 : ℚ) * 2 ^ (t + 53) ≤ 2 ^ u := by
        rw [← unit_succ]
        exact unit_le_unit (by omega)
      norm_num
      linarith

end Representable

/-! ## The place of the last bit -/

/-- In numbers as large as `y` the last of 53 bits counts `2 ^ t`. -/
structure Place (y : ℚ) (t : ℤ) : Prop where
  /-- no bit counts less than this -/
  least : -1074 ≤ t
  /-- 53 bits are enough -/
  below : |y| < 2 ^ (t + 53)
  /-- and 52 are not, except where the smallest unit is reached -/
  leading : t = -1074 ∨ 2 ^ (t + 52) ≤ |y|

namespace Place

theorem neg (h : Place y t) : Place (-y) t := ⟨h.least, by rw [abs_neg]; exact h.below, by
  rw [abs_neg]; exact h.leading⟩

theorem le_of (h : Place y t) (hu : Place y u) : t ≤ u := by
  obtain rfl | hle := h.leading
  · exact hu.least
  · have := lt_of_unit_lt (hle.trans_lt hu.below)
    omega

/-- A number has one place. -/
theorem unique (h : Place y t) (hu : Place y u) : t = u := le_antisymm (h.le_of hu) (hu.le_of h)

/-- A representable number above `y` has a number on the grid of `y` below it. -/
theorem exists_between (h : Place y t) (hr : Representable r) (hle : y ≤ r) :
    ∃ n : ℤ, y ≤ n * 2 ^ t ∧ n * 2 ^ t ≤ r := by
  obtain ⟨u, hu, hmul, habs⟩ := hr
  rcases le_or_gt t u with htu | htu
  · obtain ⟨n, rfl⟩ := hmul.mono htu
    exact ⟨n, hle, le_rfl⟩
  · -- finer bits are there only in numbers that are not larger than all of the size of `y`
    have hlead : (2 : ℚ) ^ (t + 52) ≤ |y| := h.leading.resolve_left (by omega)
    have hsmall : |r| ≤ 2 ^ (t + 52) := habs.trans (unit_le_unit (by omega))
    have hunit : (2 : ℚ) ^ (t + 52) = 2 ^ 52 * 2 ^ t := by rw [add_comm, unit_add]; norm_num
    rw [hunit] at hlead hsmall
    obtain ⟨hlow, hhigh⟩ := abs_le.mp hsmall
    rcases le_total 0 y with hy | hy
    · rw [abs_of_nonneg hy] at hlead
      exact ⟨2 ^ 52, by push_cast; linarith, by push_cast; linarith⟩
    · rw [abs_of_nonpos hy] at hlead
      exact ⟨-2 ^ 52, by push_cast; linarith, by push_cast; linarith⟩

/-- Counted in units of the last bit, a number has 53 bits before the point. -/
theorem abs_div_le (h : Place y t) : |y / 2 ^ t| ≤ 2 ^ 53 := by
  have hunit := unit_pos t
  have hbelow := h.below
  rw [abs_div, abs_of_pos hunit, div_le_iff₀ hunit]
  rw [add_comm, unit_add] at hbelow
  exact hbelow.le

theorem le_abs_div (h : Place y t) (ht : t ≠ -1074) : 2 ^ 52 ≤ |y / 2 ^ t| := by
  have hunit := unit_pos t
  have hlead := h.leading.resolve_left ht
  rw [abs_div, abs_of_pos hunit, le_div_iff₀ hunit]
  rw [add_comm, unit_add] at hlead
  exact hlead

end Place

/-- Half of the last bit, measured by the number. -/
theorem half_unit_le (h : 2 ^ (t + 52) ≤ |y|) : (2 : ℚ) ^ t / 2 ≤ |y| / 2 ^ 53 := by
  rw [unit_add] at h
  norm_num at h ⊢
  linarith

/-! ## Nearest integers -/

/-- `n` is the integer nearest to `y`, the even one of two. -/
structure Nearest (y : ℚ) (n : ℤ) : Prop where
  /-- no integer is nearer -/
  near : |y - n| ≤ 1 / 2
  /-- one as near is odd -/
  even : |y - n| = 1 / 2 → Even n

namespace Nearest

theorem of_lt (h : |y - n| < 1 / 2) : Nearest y n := ⟨h.le, fun heq => absurd heq h.ne⟩

theorem neg (h : Nearest y n) : Nearest (-y) (-n) := by
  have habs : |-y - ((-n : ℤ) : ℚ)| = |y - n| := by
    rw [← abs_neg]
    congr 1
    push_cast
    ring
  exact ⟨habs ▸ h.near, fun heq => (h.even (habs ▸ heq)).neg⟩

/-- Rounding does not go beyond an integer. -/
theorem le_of_le {m : ℤ} (h : Nearest y n) (hle : y ≤ m) : n ≤ m := by
  obtain ⟨hlow, -⟩ := abs_le.mp h.near
  have hlt : (n : ℚ) < m + 1 := by linarith
  have hlt' : n < m + 1 := by exact_mod_cast hlt
  omega

theorem ge_of_ge {m : ℤ} (h : Nearest y n) (hle : m ≤ y) : m ≤ n := by
  have hneg : -y ≤ ((-m : ℤ) : ℚ) := by
    push_cast
    exact neg_le_neg hle
  exact neg_le_neg_iff.mp (h.neg.le_of_le hneg)

theorem abs_le_of_abs_le {m : ℤ} (h : Nearest y n) (hle : |y| ≤ m) : |n| ≤ m := by
  obtain ⟨hlow, hhigh⟩ := abs_le.mp hle
  refine abs_le.mpr ⟨h.ge_of_ge ?_, h.le_of_le hhigh⟩
  push_cast
  exact hlow

/-- Of two integers equally near, the even one. -/
theorem eq_of_even {m : ℤ} (h : Nearest y n) (hm : Even m) (hle : |y - m| ≤ 1 / 2) : n = m := by
  by_contra hne
  -- an integer next to `m` is as near only where it is half a unit away, and then it is odd
  have hapart : (1 : ℚ) ≤ |(n : ℚ) - m| := by
    rw [← Int.cast_sub, ← Int.cast_abs]
    exact_mod_cast Int.one_le_abs (sub_ne_zero.mpr hne)
  have hsum : |(n : ℚ) - m| ≤ |y - n| + |y - m| := by
    rw [abs_sub_comm y n]
    exact abs_sub_le _ _ _
  have heven : Even n := h.even (le_antisymm h.near (by linarith))
  have hnear : |n - m| ≤ 1 := by
    have hone : |(n : ℚ) - m| ≤ 1 := by linarith [h.near]
    exact_mod_cast hone
  obtain ⟨i, rfl⟩ := heven
  obtain ⟨j, rfl⟩ := hm
  obtain ⟨hlow, hhigh⟩ := abs_le.mp hnear
  omega

end Nearest

/-! ## Rounding -/

/-- `z` is `y`, rounded to 53 bits. -/
def Rounded (y z : ℚ) : Prop := ∃ t n : ℤ, Place y t ∧ Nearest (y / 2 ^ t) n ∧ z = n * 2 ^ t

namespace Rounded

theorem neg (h : Rounded y z) : Rounded (-y) (-z) := by
  obtain ⟨t, n, hplace, hnear, rfl⟩ := h
  refine ⟨t, -n, hplace.neg, ?_, by push_cast; ring⟩
  rw [neg_div]
  exact hnear.neg

/-- How `y` is rounded, once its place is known. -/
theorem at_place (h : Rounded y z) (hplace : Place y t) :
    ∃ n : ℤ, Nearest (y / 2 ^ t) n ∧ z = n * 2 ^ t := by
  obtain ⟨u, n, hu, hnear, hz⟩ := h
  obtain rfl := hplace.unique hu
  exact ⟨n, hnear, hz⟩

/-- **Rounding does not go beyond a representable number.** -/
theorem le_of_le (h : Rounded y z) (hr : Representable r) (hle : y ≤ r) : z ≤ r := by
  obtain ⟨t, n, hplace, hnear, rfl⟩ := h
  obtain ⟨m, hy, hm⟩ := hplace.exists_between hr hle
  have hunit := unit_pos t
  have hnm : n ≤ m := hnear.le_of_le ((div_le_iff₀ hunit).mpr hy)
  calc (n : ℚ) * 2 ^ t ≤ m * 2 ^ t := by
        exact mul_le_mul_of_nonneg_right (by exact_mod_cast hnm) hunit.le
    _ ≤ r := hm

theorem ge_of_ge (h : Rounded y z) (hr : Representable r) (hle : r ≤ y) : r ≤ z := by
  have := h.neg.le_of_le hr.neg (neg_le_neg hle)
  linarith

/-- **Representable numbers are kept.** -/
theorem eq_of_representable (h : Rounded y z) (hy : Representable y) : z = y :=
  le_antisymm (h.le_of_le hy le_rfl) (h.ge_of_ge hy le_rfl)

theorem representable (h : Rounded y z) : Representable z := by
  obtain ⟨t, n, hplace, hnear, rfl⟩ := h
  have hunit := unit_pos t
  have hy : |y / 2 ^ t| ≤ ((2 ^ 53 : ℤ) : ℚ) := by exact_mod_cast hplace.abs_div_le
  refine ⟨t, hplace.least, ⟨n, rfl⟩, ?_⟩
  rw [abs_mul, abs_of_pos hunit, add_comm, unit_add]
  refine mul_le_mul_of_nonneg_right ?_ hunit.le
  exact_mod_cast hnear.abs_le_of_abs_le hy

theorem nonneg (h : Rounded y z) (hy : 0 ≤ y) : 0 ≤ z := h.ge_of_ge .zero hy

/-- Rounding clears bits only at the end. -/
theorem multiple (h : Rounded y z) (hy : Multiple u y) (hu : -1074 ≤ u) : Multiple u z := by
  obtain ⟨t, n, hplace, hnear, rfl⟩ := id h
  rcases le_total t u with htu | hut
  · rwa [h.eq_of_representable ⟨u, hu, hy, hplace.below.le.trans (unit_le_unit (by omega))⟩]
  · exact (Multiple.unit hut).int_mul n

/-- Half way between two numbers, the result is the even one. -/
theorem eq_of_even (h : Rounded y z) (hplace : Place y t) (hn : Even n)
    (hle : |y - n * 2 ^ t| ≤ 2 ^ t / 2) : z = n * 2 ^ t := by
  obtain ⟨m, hnear, rfl⟩ := h.at_place hplace
  have hunit := unit_pos t
  have hscaled : |y / 2 ^ t - n| ≤ 1 / 2 := by
    rw [show y / 2 ^ t - n = (y - n * 2 ^ t) / 2 ^ t by field_simp, abs_div, abs_of_pos hunit,
      div_le_iff₀ hunit]
    linarith
  rw [hnear.eq_of_even hn hscaled]

/-- Rounding moves a number by half a unit at most. -/
theorem error_at (h : Rounded y z) (hplace : Place y t) : |z - y| ≤ 2 ^ t / 2 := by
  obtain ⟨n, hnear, rfl⟩ := h.at_place hplace
  have hunit := unit_pos t
  have heq : |(n : ℚ) * 2 ^ t - y| = |y / 2 ^ t - n| * 2 ^ t := by
    rw [← abs_of_pos hunit, ← abs_mul, abs_of_pos hunit, abs_sub_comm]
    congr 1
    field_simp
  rw [heq]
  have := mul_le_mul_of_nonneg_right hnear.near hunit.le
  linarith

/-- **The error of rounding**: half of the last of 53 bits, or half of the smallest unit. -/
theorem error (h : Rounded y z) : |z - y| ≤ |y| / 2 ^ 53 + 2 ^ (-1075 : ℤ) := by
  obtain ⟨t, -, hplace, -⟩ := id h
  have herror := h.error_at hplace
  have hsmall := unit_pos (-1075)
  obtain rfl | hlead := hplace.leading
  · have hhalf : (2 : ℚ) ^ (-1074 : ℤ) = 2 * 2 ^ (-1075 : ℤ) := by
      rw [← unit_succ]
      norm_num
    have : 0 ≤ |y| / 2 ^ 53 := by positivity
    linarith
  · have := half_unit_le hlead
    linarith

/-- The smallest unit does not matter where nothing is smaller. -/
theorem error_of_multiple (h : Rounded y z) (hy : Multiple (-1074) y) :
    |z - y| ≤ |y| / 2 ^ 53 := by
  obtain ⟨t, -, hplace, -⟩ := id h
  obtain rfl | hlead := hplace.leading
  · have hfix : z = y :=
      h.eq_of_representable ⟨-1074, le_rfl, hy, hplace.below.le⟩
    rw [hfix, sub_self, abs_zero]
    positivity
  · exact (h.error_at hplace).trans (half_unit_le hlead)

end Rounded

end PatchDynamics.Rounding
