import Mathlib
import PatchDynamics.Proofs.Rounding.Values

/-!
# Arithmetic is exact arithmetic, rounded

Sums, differences, products and quotients of finite words are computed on mantissas: exactly first,
with two more bits that tell what was cut off, and then rounded. `Yields x y` says that the word `x`
is the number `y`, rounded, and infinite if that is out of range:

* `yields_add`, `yields_sub`, `yields_mul`, `yields_div` — what the operations yield.

All that is proved about computations with words follows from these four and from what is known of
`Rounded`.
-/

namespace PatchDynamics.Rounding

open Float.Model (UnpackedFloat Format totalExponent)
open Float.Model.UnpackedFloat

/-! ## Extended mantissas -/

/-- What an extended mantissa tells of a number, counted in units of its last bit: the part before
the point, and how the part after it compares with zero and one half. -/
structure Describes (em : ExtendedMantissa) (y : ℚ) : Prop where
  lower : em.mantissa ≤ y
  upper : y < em.mantissa + 1
  half : em.roundBit = true ↔ em.mantissa + 1 / 2 ≤ y
  rest : em.stickyBit = true ↔ y ≠ em.mantissa ∧ y ≠ em.mantissa + 1 / 2

namespace Describes

variable {em : ExtendedMantissa} {y : ℚ}

theorem exact (m : ℕ) : Describes (.ofMantissaAndAccuracy m .exact) m :=
  ⟨le_rfl, lt_add_one _, by simp [ExtendedMantissa.ofMantissaAndAccuracy],
    by simp [ExtendedMantissa.ofMantissaAndAccuracy]⟩

theorem below_half {m : ℕ} {f : ℚ} (hpos : 0 < f) (hlt : f < 1 / 2) :
    Describes (.ofMantissaAndAccuracy m (.inexact .lt)) (m + f) := by
  constructor <;> simp only [ExtendedMantissa.ofMantissaAndAccuracy] <;> grind

theorem at_half {m : ℕ} {f : ℚ} (h : 2 * f = 1) :
    Describes (.ofMantissaAndAccuracy m (.inexact .eq)) (m + f) := by
  constructor <;> simp only [ExtendedMantissa.ofMantissaAndAccuracy] <;> grind

theorem above_half {m : ℕ} {f : ℚ} (hgt : 1 / 2 < f) (hlt : f < 1) :
    Describes (.ofMantissaAndAccuracy m (.inexact .gt)) (m + f) := by
  constructor <;> simp only [ExtendedMantissa.ofMantissaAndAccuracy] <;> grind

/-- A quotient of natural numbers, cut to an integer and the accuracy of the rest. -/
theorem quotient (a : ℕ) {b : ℕ} (hb : 0 < b) :
    Describes (.ofMantissaAndAccuracy (a / b) (accuracyOfFraction (a % b) b)) (a / b) := by
  have hb' : (0 : ℚ) < b := by exact_mod_cast hb
  have hsplit : (a : ℚ) / b = (a / b : ℕ) + (a % b : ℕ) / b := by
    have hdivide : (a : ℚ) = b * (a / b : ℕ) + (a % b : ℕ) := by
      exact_mod_cast (Nat.div_add_mod a b).symm
    field_simp
    exact hdivide
  have hlt : ((a % b : ℕ) : ℚ) < b := by exact_mod_cast Nat.mod_lt a hb
  rw [hsplit]
  generalize a / b = q at *
  generalize a % b = r at *
  rcases Nat.eq_zero_or_pos r with rfl | hpos
  · rw [accuracyOfFraction, if_pos rfl, Nat.cast_zero, zero_div, add_zero]
    exact exact q
  · have hpos' : (0 : ℚ) < r := by exact_mod_cast hpos
    rw [accuracyOfFraction, if_neg hpos.ne']
    rcases lt_trichotomy (2 * r) b with hless | heq | hmore
    · have hless' : 2 * (r : ℚ) < b := by exact_mod_cast hless
      rw [compare_lt_iff_lt.mpr hless]
      exact below_half (div_pos hpos' hb') (by rw [div_lt_div_iff₀ hb' two_pos]; linarith)
    · have heq' : 2 * (r : ℚ) = b := by exact_mod_cast heq
      rw [compare_eq_iff_eq.mpr heq]
      exact at_half (by rw [← heq']; field_simp)
    · have hmore' : (b : ℚ) < 2 * r := by exact_mod_cast hmore
      rw [compare_gt_iff_gt.mpr hmore]
      exact above_half (by rw [div_lt_div_iff₀ two_pos hb']; linarith) ((div_lt_one hb').mpr hlt)

/-- Something was cut off. -/
theorem inexact_iff (h : Describes em y) :
    (em.roundBit || em.stickyBit) = true ↔ y ≠ em.mantissa := by
  rw [Bool.or_eq_true, h.half, h.rest]
  grind

/-- **The rounded mantissa is the nearest integer.** -/
theorem nearest (h : Describes em y) : Nearest y em.roundedMantissa := by
  obtain ⟨m, round, sticky⟩ := em
  obtain ⟨hlower, hupper, hhalf, hrest⟩ := h
  dsimp only at *
  cases round with
  | false =>
    -- `m` is nearer than `m + 1`
    have hnear : y < m + 1 / 2 := lt_of_not_ge (hhalf.not.mp Bool.false_ne_true)
    have hrounded : (ExtendedMantissa.mk m false sticky).roundedMantissa = m := by
      cases sticky <;> rfl
    rw [hrounded]
    refine .of_lt (abs_lt.mpr ?_)
    push_cast
    exact ⟨by linarith, by linarith⟩
  | true =>
    have hnear : m + 1 / 2 ≤ y := hhalf.mp rfl
    cases sticky with
    | false =>
      obtain rfl : y = m + 1 / 2 := by grind
      have hrounded : (ExtendedMantissa.mk m true false).roundedMantissa = m + m % 2 := rfl
      rw [hrounded]
      have hbit : m % 2 = 0 ∨ m % 2 = 1 := by omega
      refine ⟨?_, fun _ => by rw [Int.even_iff]; omega⟩
      rcases hbit with hbit | hbit <;> rw [hbit] <;> push_cast <;> norm_num
    | true =>
      have hrounded : (ExtendedMantissa.mk m true true).roundedMantissa = m + 1 := rfl
      have hne : y ≠ m + 1 / 2 := (hrest.mp rfl).2
      have hgt : m + 1 / 2 < y := lt_of_le_of_ne hnear hne.symm
      rw [hrounded]
      refine .of_lt (abs_lt.mpr ?_)
      push_cast
      exact ⟨by linarith, by linarith⟩

/-- A shift by one bit halves the number. -/
theorem shiftRightOne (h : Describes em y) : Describes em.shiftRightOne (y / 2) := by
  obtain ⟨hlower, hupper, -, -⟩ := id h
  have hsplit : (em.mantissa : ℚ) = 2 * (em.mantissa / 2 : ℕ) + (em.mantissa % 2 : ℕ) := by
    exact_mod_cast (Nat.div_add_mod em.mantissa 2).symm
  have hbit : em.mantissa % 2 = 0 ∨ em.mantissa % 2 = 1 := by omega
  have hrest := h.inexact_iff
  rcases hbit with hbit | hbit <;> rw [hbit] at hsplit <;> constructor <;>
    simp only [ExtendedMantissa.shiftRightOne, hbit] <;> grind

theorem shiftRight (h : Describes em y) (n : ℕ) : Describes (em >>> n) (y / 2 ^ n) := by
  induction n with
  | zero =>
    rw [pow_zero, div_one]
    exact h
  | succ n ih =>
    have hstep := ih.shiftRightOne
    rw [div_div, ← pow_succ] at hstep
    exact hstep

end Describes

/-! ## Rounding a mantissa -/

variable {s : Sign} {m : ℕ} {e t : ℤ} {y z : ℚ}

/-- The exponent to which a mantissa is shifted. -/
def target (m : ℕ) (e : ℤ) : ℤ := Format.binary64.targetExponent (totalExponent m e)

theorem target_eq (m : ℕ) (e : ℤ) : target m e = max (m.log2 + e - 52) (-1074) := by
  change max ((m.log2 : ℤ) + 1 + e - 53) (3 - 2 ^ 10 - 53) = _
  norm_num
  omega

@[simp]
theorem mantissa_ofMantissaAndAccuracy (m : ℕ) (acc : Accuracy) :
    (ExtendedMantissa.ofMantissaAndAccuracy m acc).mantissa = m := by
  rcases acc with _ | (_ | _ | _) <;> rfl

/-- **The target is the place of the last bit**, if the mantissa is not to be shifted left. -/
theorem place_target {acc : Accuracy} (hy : Describes (.ofMantissaAndAccuracy m acc) y)
    (he : e ≤ target m e) : Place (y * 2 ^ e) (target m e) := by
  have hunit := unit_pos e
  have hlower := hy.lower
  have hupper := hy.upper
  rw [mantissa_ofMantissaAndAccuracy] at hlower hupper
  have hpos : 0 ≤ y * 2 ^ e := mul_nonneg ((Nat.cast_nonneg m).trans hlower) hunit.le
  rw [target_eq] at he ⊢
  refine ⟨le_max_right _ _, ?_, ?_⟩
  · have hbits : (m : ℚ) + 1 ≤ 2 ^ ((m.log2 : ℤ) + 1) := by
      exact_mod_cast Nat.lt_log2_self (n := m)
    rw [abs_of_nonneg hpos]
    calc y * 2 ^ e < 2 ^ ((m.log2 : ℤ) + 1) * 2 ^ e :=
          mul_lt_mul_of_pos_right (hupper.trans_le hbits) hunit
      _ ≤ 2 ^ (max (m.log2 + e - 52) (-1074) + 53) := by
          rw [← unit_add]
          exact unit_le_unit (by omega)
  · rcases le_or_gt ((m.log2 : ℤ) + e - 52) (-1074) with hsmall | hlarge
    · exact .inl (max_eq_right hsmall)
    · have hm : m ≠ 0 := by
        rintro rfl
        rw [Nat.log2_zero] at he hlarge
        omega
      have hbits : (2 : ℚ) ^ (m.log2 : ℤ) ≤ y :=
        le_trans (by exact_mod_cast Nat.log2_self_le hm) hlower
      rw [abs_of_nonneg hpos, max_eq_left hlarge.le, sub_add_cancel, unit_add]
      exact .inr (mul_le_mul_of_nonneg_right hbits hunit.le)

/-- A rounded mantissa has 53 bits, or one more that is shifted out again. -/
theorem settle {n : ℕ} (ht : -1074 ≤ t) (hn : n ≤ 2 ^ 53) (hlead : t = -1074 ∨ 2 ^ 52 ≤ n) :
    let shifted := shiftToTargetExponent Format.binary64 n t .exact
    (shifted.1.mantissa : ℚ) * 2 ^ shifted.2 = n * 2 ^ t ∧
      -1074 ≤ shifted.2 ∧ shifted.1.mantissa < 2 ^ 53 ∧
      (shifted.2 = -1074 ∨ 2 ^ 52 ≤ shifted.1.mantissa) := by
  have hshifted : shiftToTargetExponent Format.binary64 n t .exact =
      (ExtendedMantissa.ofMantissaAndAccuracy n .exact >>> (target n t - t).toNat,
        t + (target n t - t).toNat) := rfl
  rw [hshifted, target_eq]
  rcases Nat.lt_or_ge n (2 ^ 53) with hlt | hge
  · have hbits : n.log2 ≤ 52 := by
      rcases eq_or_ne n 0 with rfl | hne
      · rw [Nat.log2_zero]
        exact Nat.zero_le _
      · exact Nat.le_of_lt_succ ((Nat.log2_lt hne).mpr hlt)
    have hzero : (max ((n.log2 : ℤ) + t - 52) (-1074) - t).toNat = 0 := by omega
    rw [hzero, Nat.cast_zero, add_zero]
    exact ⟨rfl, ht, hlt, hlead⟩
  · obtain rfl : n = 2 ^ 53 := le_antisymm hn hge
    have hone : (max (((2 ^ 53).log2 : ℤ) + t - 52) (-1074) - t).toNat = 1 := by
      rw [Nat.log2_two_pow]
      omega
    rw [hone]
    refine ⟨?_, by omega, ?_, .inr ?_⟩
    · change ((2 ^ 53 / 2 : ℕ) : ℚ) * 2 ^ (t + 1) = _
      rw [unit_add]
      norm_num
      ring
    · change 2 ^ 53 / 2 < 2 ^ 53
      norm_num
    · change 2 ^ 52 ≤ 2 ^ 53 / 2
      norm_num

/-- The unpacked number is what `y` is rounded to, in canonical form. -/
structure Correct (u : UnpackedFloat) (y : ℚ) : Prop where
  canonical : Canonical u
  finite : u.isFinite = true
  rounded : Rounded y (amount u)

/-- **A mantissa is rounded correctly.** -/
theorem correct_roundWithAccuracy {acc : Accuracy} (s : Sign)
    (hy : Describes (.ofMantissaAndAccuracy m acc) y) (he : e ≤ target m e) :
    Correct (roundWithAccuracy Format.binary64 s m e acc) (factor s * (y * 2 ^ e)) := by
  have hplace := place_target hy he
  have hpos : 0 ≤ y := (Nat.cast_nonneg _).trans hy.lower
  set t := target m e with ht
  have hfirst : shiftToTargetExponent Format.binary64 m e acc =
      (ExtendedMantissa.ofMantissaAndAccuracy m acc >>> (t - e).toNat, t) := by
    change (ExtendedMantissa.ofMantissaAndAccuracy m acc >>> (t - e).toNat,
      e + ((t - e).toNat : ℤ)) = _
    rw [Int.toNat_of_nonneg (by omega), add_sub_cancel]
  have hunits : y * 2 ^ e / 2 ^ t = y / 2 ^ (t - e).toNat := by
    have hsplit : (2 : ℚ) ^ t = 2 ^ (t - e).toNat * 2 ^ e := by
      rw [← zpow_natCast, ← unit_add, Int.toNat_of_nonneg (by omega), sub_add_cancel]
    rw [hsplit, mul_div_mul_right _ _ (unit_pos e).ne']
  have hnearest := (hy.shiftRight (t - e).toNat).nearest
  rw [← hunits] at hnearest
  rw [roundWithAccuracy, hfirst]
  dsimp only
  generalize ExtendedMantissa.roundedMantissa _ = n at *
  have hn : n ≤ 2 ^ 53 := by
    have := hnearest.abs_le_of_abs_le (m := 2 ^ 53) (by exact_mod_cast hplace.abs_div_le)
    rw [Nat.abs_cast] at this
    exact_mod_cast this
  have hlead : t = -1074 ∨ 2 ^ 52 ≤ n := by
    refine or_iff_not_imp_left.mpr fun hne => ?_
    have hlarge := hplace.le_abs_div hne
    rw [hunits, abs_of_nonneg (div_nonneg hpos (by positivity)), ← hunits] at hlarge
    have := hnearest.ge_of_ge (m := 2 ^ 52) (by exact_mod_cast hlarge)
    exact_mod_cast this
  obtain ⟨hvalue, hmin, hlt, hlead'⟩ := settle hplace.least hn hlead
  generalize shiftToTargetExponent Format.binary64 n t .exact = shifted at *
  have hrounded : Rounded (y * 2 ^ e) (shifted.1.mantissa * 2 ^ shifted.2) :=
    ⟨t, n, hplace, hnearest, by rw [hvalue, Int.cast_natCast]⟩
  have hsigned :
      Rounded (factor s * (y * 2 ^ e)) (factor s * (shifted.1.mantissa * 2 ^ shifted.2)) := by
    cases s
    · simpa [factor] using hrounded.neg
    · simpa [factor] using hrounded
  split
  · next hzero =>
    rw [hzero] at hsigned
    exact ⟨trivial, rfl, by simpa using hsigned⟩
  · exact ⟨⟨hmin, hlt, hlead'⟩, rfl, hsigned⟩

/-! ## The operations -/

theorem log2_shiftLeft (hm : 0 < m) (k : ℕ) : (m <<< k).log2 = m.log2 + k := by
  rw [Nat.shiftLeft_eq, Nat.log2_eq_iff (by positivity)]
  constructor
  · rw [pow_add]
    exact Nat.mul_le_mul_right _ (Nat.log2_self_le hm.ne')
  · rw [add_right_comm, pow_add]
    exact Nat.mul_lt_mul_of_pos_right Nat.lt_log2_self (by positivity)

theorem target_shiftLeft (hm : 0 < m) (k : ℕ) : target (m <<< k) (e - k) = target m e := by
  have hlog := log2_shiftLeft hm k
  rw [target_eq, target_eq, hlog]
  push_cast
  congr 1
  ring

/-- A shift to the left changes the exponent only. -/
theorem shiftLeft_mul_unit (m : ℕ) (e : ℤ) (k : ℕ) :
    ((m <<< k : ℕ) : ℚ) * 2 ^ (e - k) = m * 2 ^ e := by
  rw [Nat.shiftLeft_eq]
  push_cast
  rw [← zpow_natCast, mul_assoc, ← unit_add, add_sub_cancel]

theorem shiftLeft_mul_unit' (h : t ≤ e) (m : ℕ) :
    ((m <<< (e - t).toNat : ℕ) : ℚ) * 2 ^ t = m * 2 ^ e := by
  have := shiftLeft_mul_unit m e (e - t).toNat
  rwa [Int.toNat_of_nonneg (by omega), sub_sub_cancel] at this

/-- **Numbers of any size are rounded correctly.** -/
theorem correct_round (s : Sign) (hm : 0 < m) (e : ℤ) :
    Correct (UnpackedFloat.round Format.binary64 s m e) (factor s * (m * 2 ^ e)) := by
  change Correct (roundWithAccuracy Format.binary64 s (m <<< (e - target m e).toNat)
    (e - (e - target m e).toNat) .exact) _
  rw [← shiftLeft_mul_unit m e (e - target m e).toNat]
  refine correct_roundWithAccuracy s (.exact _) ?_
  rw [target_shiftLeft hm]
  omega

/-- Zero is rounded to zero. -/
theorem rounded_zero : Rounded 0 0 :=
  ⟨-1074, 0, ⟨le_rfl, by rw [abs_zero]; exact unit_pos _, .inl rfl⟩, .of_lt (by norm_num), by simp⟩

theorem correct_normalize (n e : ℤ) (s : Sign) :
    Correct (UnpackedFloat.normalize Format.binary64 n e s) (n * 2 ^ e) := by
  rcases lt_trichotomy n 0 with hneg | rfl | hpos
  · obtain ⟨m, rfl⟩ : ∃ m : ℕ, n = -m := ⟨n.natAbs, by omega⟩
    have hround := correct_round .negative (show 0 < m by omega) e
    rw [UnpackedFloat.normalize, compare_lt_iff_lt.mpr hneg]
    simpa [factor] using hround
  · rw [UnpackedFloat.normalize, compare_eq_iff_eq.mpr rfl]
    exact ⟨trivial, rfl, by simpa using rounded_zero⟩
  · obtain ⟨m, rfl⟩ : ∃ m : ℕ, n = m := ⟨n.natAbs, by omega⟩
    have hround := correct_round .positive (show 0 < m by omega) e
    rw [UnpackedFloat.normalize, compare_gt_iff_gt.mpr hpos]
    simpa [factor] using hround

theorem cast_apply (s : Sign) (n : ℕ) : ((s.apply n : ℤ) : ℚ) = factor s * n := by
  cases s <;> simp [Sign.apply, factor]

variable {u v : UnpackedFloat}

/-- What is canonical is rounded to itself. -/
theorem correct_self (hu : Canonical u) (hf : u.isFinite = true) : Correct u (amount u) := by
  refine ⟨hu, hf, ?_⟩
  cases u with
  | finite s m e hm =>
    have hrounded : Rounded (m * 2 ^ e) (m * 2 ^ e) := by
      refine ⟨e, m, place_of_canonical hu, ?_, by rw [Int.cast_natCast]⟩
      rw [mul_div_cancel_right₀ _ (unit_pos e).ne']
      exact .of_lt (by norm_num)
    cases s
    · simpa [amount, factor] using hrounded.neg
    · simpa [amount, factor] using hrounded
  | _ => exact rounded_zero

theorem correct_add (hu : Canonical u) (hv : Canonical v) (hfu : u.isFinite = true)
    (hfv : v.isFinite = true) :
    Correct (UnpackedFloat.add Format.binary64 u v) (amount u + amount v) := by
  cases u with
  | infinity s => cases hfu
  | notANumber => cases hfu
  | zero s =>
    rw [amount_zero, zero_add]
    cases v with
    | infinity s' => cases hfv
    | notANumber => cases hfv
    | zero s' => cases s <;> cases s' <;> exact correct_self trivial rfl
    | finite s' m' e' hm' => exact correct_self hv rfl
  | finite s m e hm =>
    cases v with
    | infinity s' => cases hfv
    | notANumber => cases hfv
    | zero s' =>
      rw [amount_zero, add_zero]
      exact correct_self hu rfl
    | finite s' m' e' hm' =>
      have hsum := correct_normalize
        (s.apply (m <<< (e - min e e').toNat : ℕ) + s'.apply (m' <<< (e' - min e e').toNat : ℕ))
        (min e e') .positive
      have hvalue : ((s.apply (m <<< (e - min e e').toNat : ℕ) +
          s'.apply (m' <<< (e' - min e e').toNat : ℕ) : ℤ) : ℚ) * 2 ^ (min e e') =
          amount (.finite s m e hm) + amount (.finite s' m' e' hm') := by
        rw [Int.cast_add, cast_apply, cast_apply, add_mul, mul_assoc, mul_assoc,
          shiftLeft_mul_unit' (min_le_left e e'), shiftLeft_mul_unit' (min_le_right e e'),
          amount, amount]
      rw [← hvalue]
      exact hsum

/-- A difference is a sum with the negative. -/
theorem sub_eq_add (u v : UnpackedFloat) :
    UnpackedFloat.sub Format.binary64 u v = UnpackedFloat.add Format.binary64 u v.neg := by
  have happly : ∀ (s : Sign) (n : ℤ), (-s).apply n = -s.apply n := fun s n => by
    cases s
    · exact (neg_neg n).symm
    · rfl
  cases u <;> cases v <;> first
    | rfl
    | simp only [UnpackedFloat.sub, UnpackedFloat.add, UnpackedFloat.neg, happly]; rfl

theorem canonical_neg (hu : Canonical u) : Canonical u.neg := by
  cases u <;> exact hu

theorem correct_sub (hu : Canonical u) (hv : Canonical v) (hfu : u.isFinite = true)
    (hfv : v.isFinite = true) :
    Correct (UnpackedFloat.sub Format.binary64 u v) (amount u - amount v) := by
  have hneg : v.neg.isFinite = true := by cases v <;> first | rfl | cases hfv
  have hsum := correct_add hu (canonical_neg hv) hfu hneg
  rw [amount_neg_eq] at hsum
  rw [sub_eq_add, sub_eq_add_neg]
  exact hsum

theorem factor_mul (s s' : Sign) : factor (s * s') = factor s * factor s' := by
  cases s <;> cases s'
  · exact (by norm_num : (1 : ℚ) = -1 * -1)
  · exact (by norm_num : (-1 : ℚ) = -1 * 1)
  · exact (by norm_num : (-1 : ℚ) = 1 * -1)
  · exact (by norm_num : (1 : ℚ) = 1 * 1)

theorem factor_div (s s' : Sign) : factor (s / s') = factor s / factor s' := by
  have hinv : (factor s')⁻¹ = factor s' := by cases s' <;> norm_num [factor]
  rw [div_eq_mul_inv, hinv, ← factor_mul]
  cases s <;> cases s' <;> rfl

/-- The exact product has bits enough. -/
theorem le_target_mul {s' : Sign} {m' : ℕ} {e' : ℤ} {hm : 0 < m} {hm' : 0 < m'}
    (hu : Canonical (.finite s m e hm)) (hv : Canonical (.finite s' m' e' hm')) :
    e + e' ≤ target (m * m') (e + e') := by
  have hbits : ∀ {k : ℕ}, 2 ^ 52 ≤ k → k ≤ m * m' → 52 ≤ (m * m').log2 := fun hk hle =>
    (Nat.le_log2 (Nat.mul_pos hm hm').ne').mpr (hk.trans hle)
  rw [target_eq]
  rcases hu.2.2 with he | hfull
  · rcases hv.2.2 with he' | hfull'
    · omega
    · have := hbits hfull' (Nat.le_mul_of_pos_left m' hm)
      omega
  · have := hbits hfull (Nat.le_mul_of_pos_right m hm')
    omega

theorem correct_mul (hu : Canonical u) (hv : Canonical v) (hfu : u.isFinite = true)
    (hfv : v.isFinite = true) :
    Correct (UnpackedFloat.mul Format.binary64 u v) (amount u * amount v) := by
  cases u with
  | infinity s => cases hfu
  | notANumber => cases hfu
  | zero s =>
    rw [amount_zero, zero_mul]
    cases v with
    | infinity s' => cases hfv
    | notANumber => cases hfv
    | _ => exact correct_self trivial rfl
  | finite s m e hm =>
    cases v with
    | infinity s' => cases hfv
    | notANumber => cases hfv
    | zero s' =>
      rw [amount_zero, mul_zero]
      exact correct_self trivial rfl
    | finite s' m' e' hm' =>
      have hproduct := correct_roundWithAccuracy (s * s') (.exact (m * m')) (le_target_mul hu hv)
      have hvalue : factor (s * s') * ((m * m' : ℕ) * 2 ^ (e + e')) =
          amount (.finite s m e hm) * amount (.finite s' m' e' hm') := by
        rw [factor_mul, unit_add, amount, amount]
        push_cast
        ring
      rw [← hvalue]
      exact hproduct

/-- The quotient of the mantissas has bits enough. -/
theorem le_target_div {m' : ℕ} {e' : ℤ} (hm : 0 < m) (hm' : 0 < m')
    (ht : t = min (e - e') (max (m.log2 + e - (m'.log2 + e') - 53) (-1074))) :
    t ≤ target (m <<< (e - e' - t).toNat / m') t := by
  rw [target_eq]
  rcases le_or_gt t (-1074) with hsmall | hlarge
  · omega
  · -- the dividend has 53 bits more than the divisor
    have hshift : m'.log2 + 53 ≤ (m <<< (e - e' - t).toNat).log2 := by
      rw [log2_shiftLeft hm]
      omega
    have hquotient : 2 ^ 52 ≤ m <<< (e - e' - t).toNat / m' := by
      rw [Nat.le_div_iff_mul_le hm']
      have hne : m <<< (e - e' - t).toNat ≠ 0 := by
        rw [Nat.shiftLeft_eq]
        positivity
      have hlow := Nat.log2_self_le hne
      have hhigh := Nat.lt_log2_self (n := m')
      calc 2 ^ 52 * m' ≤ 2 ^ 52 * 2 ^ (m'.log2 + 1) := Nat.mul_le_mul_left _ hhigh.le
        _ = 2 ^ (m'.log2 + 53) := by rw [← pow_add]; congr 1; omega
        _ ≤ 2 ^ (m <<< (e - e' - t).toNat).log2 := Nat.pow_le_pow_right two_pos hshift
        _ ≤ _ := hlow
    have := (Nat.le_log2 (by omega)).mpr hquotient
    omega

theorem correct_div (hu : Canonical u) (hv : Canonical v) (hfu : u.isFinite = true)
    (hfv : v.isFinite = true) (hne : amount v ≠ 0) :
    Correct (UnpackedFloat.div Format.binary64 u v) (amount u / amount v) := by
  cases v with
  | infinity s' => cases hfv
  | notANumber => cases hfv
  | zero s' => exact absurd rfl hne
  | finite s' m' e' hm' =>
    cases u with
    | infinity s => cases hfu
    | notANumber => cases hfu
    | zero s =>
      rw [amount_zero, zero_div]
      exact correct_self trivial rfl
    | finite s m e hm =>
      obtain ⟨t, ht⟩ : ∃ t, t = min (e - e') (max (m.log2 + e - (m'.log2 + e') - 53) (-1074)) :=
        ⟨_, rfl⟩
      have hcore : divCore Format.binary64 m e m' e' = (m <<< (e - e' - t).toNat / m', t,
          accuracyOfFraction (m <<< (e - e' - t).toNat % m') m') := by
        have htarget : min (e - e') (Format.binary64.targetExponent
            (totalExponent m e - totalExponent m' e')) = t := by
          rw [ht]
          change min _ (max ((m.log2 : ℤ) + 1 + e - (m'.log2 + 1 + e') - 53) (3 - 2 ^ 10 - 53)) = _
          norm_num
          congr 2
          ring
        rw [divCore, htarget]
      have hquotient := correct_roundWithAccuracy (s / s')
        (.quotient (m <<< (e - e' - t).toNat) hm') (le_target_div hm hm' ht)
      have hvalue : factor (s / s') * ((m <<< (e - e' - t).toNat : ℕ) / m' * 2 ^ t) =
          amount (.finite s m e hm) / amount (.finite s' m' e' hm') := by
        have hunit := (unit_pos e').ne'
        have hshift := shiftLeft_mul_unit' (show t ≤ e - e' by omega) m
        have hexponent : (2 : ℚ) ^ (e - e') = 2 ^ e / 2 ^ e' := zpow_sub₀ two_ne_zero e e'
        have hmagnitude : ((m <<< (e - e' - t).toNat : ℕ) : ℚ) / m' * 2 ^ t =
            m * 2 ^ e / (m' * 2 ^ e') := by
          rw [div_mul_eq_mul_div, hshift, hexponent]
          field_simp
        rw [hmagnitude, factor_div, amount, amount, div_mul_div_comm]
      rw [← hvalue]
      change Correct (roundWithAccuracy _ _ (divCore _ m e m' e').1 (divCore _ m e m' e').2.1
        (divCore _ m e m' e').2.2) _
      rw [hcore]
      exact hquotient

/-! ## Words -/

variable {x x' : Float} {r : ℚ}

/-- The word `x` is the number `y`, rounded; if that is out of range, it is not finite. -/
def Yields (x : Float) (y : ℚ) : Prop :=
  ∃ z, Rounded y z ∧ (|z| < 2 ^ (1024 : ℤ) → x.isFinite = true ∧ value x = z) ∧
    (2 ^ (1024 : ℤ) ≤ |z| → ¬ x.isFinite = true)

namespace Yields

/-- **A finite result is the exact one, rounded.** -/
theorem rounded (h : Yields x y) (hx : x.isFinite = true) : Rounded y (value x) := by
  obtain ⟨z, hz, hin, hout⟩ := h
  rw [(hin (lt_of_not_ge fun hge => hout hge hx)).2]
  exact hz

/-- A result that is bounded by a number in range is finite. -/
theorem isFinite (h : Yields x y) (hr : Representable r) (hlt : r < 2 ^ (1024 : ℤ))
    (hle : |y| ≤ r) : x.isFinite = true := by
  obtain ⟨z, hz, hin, -⟩ := h
  obtain ⟨hlow, hhigh⟩ := abs_le.mp hle
  have habs : |z| ≤ r := abs_le.mpr ⟨hz.ge_of_ge hr.neg hlow, hz.le_of_le hr hhigh⟩
  exact (hin (habs.trans_lt hlt)).1

end Yields

/-- Packing a correct result yields it. -/
theorem yields_of_correct {u : UnpackedFloat} (h : Correct u y) :
    Yields (.ofModel (.pack u)) y := by
  refine ⟨amount u, h.rounded, fun hlt => ?_, fun hge => ?_⟩
  · have hrange : InRange u := by
      cases u with
      | finite s m e hm =>
        by_contra hout
        have hlarge : 971 < e := lt_of_not_ge hout
        have hge := unit_le_abs_amount h.canonical (by omega)
        exact absurd ((unit_le_unit (by omega)).trans hge) hlt.not_ge
      | _ => trivial
    have hunpack := unpack_pack h.canonical hrange
    exact ⟨(congrArg UnpackedFloat.isFinite hunpack).trans h.finite, congrArg amount hunpack⟩
  · cases u with
    | finite s m e hm =>
      have hout : 971 < e := by
        by_contra hin
        exact absurd (abs_amount_lt h.canonical (le_of_not_gt hin)) hge.not_gt
      intro hfinite
      change UnpackedFloat.isFinite (Float.ofModel (.pack _)).toModel.unpack = true at hfinite
      rw [unpack_pack_overflow hout] at hfinite
      cases hfinite
    | _ => exact absurd hge ((abs_zero (α := ℚ)).trans_lt (unit_pos _)).not_ge

theorem yields_add (hx : x.isFinite = true) (hx' : x'.isFinite = true) :
    Yields (x + x') (value x + value x') :=
  yields_of_correct (correct_add (canonical_unpack hx).1 (canonical_unpack hx').1 hx hx')

theorem yields_sub (hx : x.isFinite = true) (hx' : x'.isFinite = true) :
    Yields (x - x') (value x - value x') :=
  yields_of_correct (correct_sub (canonical_unpack hx).1 (canonical_unpack hx').1 hx hx')

theorem yields_mul (hx : x.isFinite = true) (hx' : x'.isFinite = true) :
    Yields (x * x') (value x * value x') :=
  yields_of_correct (correct_mul (canonical_unpack hx).1 (canonical_unpack hx').1 hx hx')

theorem yields_div (hx : x.isFinite = true) (hx' : x'.isFinite = true) (hne : value x' ≠ 0) :
    Yields (x / x') (value x / value x') :=
  yields_of_correct (correct_div (canonical_unpack hx).1 (canonical_unpack hx').1 hx hx' hne)

end PatchDynamics.Rounding
