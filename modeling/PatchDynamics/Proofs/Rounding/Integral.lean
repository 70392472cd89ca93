import Mathlib
import PatchDynamics.Proofs.Rounding.Values

/-!
# The largest integral value below

`integralBelow` works on the bits of a word. Its result is the floor of the value:

* `finite_of_shifted` — adding to the fraction of a word, with a carry into the exponent field, adds
  to its value;
* `integralBelow_exact` — the value of `integralBelow x` is the largest integer that is not larger
  than the value of `x`;
* `integralBelow_proper` — between zero and one that is the zero with a positive sign.
-/

namespace PatchDynamics.Rounding

open Float.Model (UnpackedFloat)
open Float.Model.UnpackedFloat (Sign)

/-! ## Parts of a word -/

variable {w w' : UInt64}

theorem toNat_exponentField (w : UInt64) : (exponentField w).toNat = field w := by
  rw [exponentField, UInt64.toNat_and, UInt64.toNat_shiftRight, Nat.shiftRight_eq_div_pow]
  exact Nat.and_two_pow_sub_one_eq_mod _ 11

theorem toNat_signPart (w : UInt64) : (signPart w).toNat = w.toNat / 2 ^ 63 * 2 ^ 63 := by
  have hlt := w.toNat_lt
  have hbit : (w.toNat.testBit 63).toNat = w.toNat / 2 ^ 63 := by
    rw [Nat.toNat_testBit]
    omega
  rw [signPart, UInt64.toNat_and]
  exact (Nat.and_two_pow _ 63).trans (by rw [hbit])

theorem signPart_eq_zero_iff : signPart w = 0 ↔ sign w = .positive := by
  rw [← UInt64.toNat_inj, toNat_signPart, sign]
  split <;> simp <;> omega

/-- A word with a cleared exponent field and fraction holds a zero. -/
theorem unpacked_signPart (w : UInt64) : unpacked (signPart w) = .zero (sign w) := by
  have hlt := w.toNat_lt
  have hpart := toNat_signPart w
  have hsign : sign (signPart w) = sign w := by
    rw [sign, sign]
    exact if_congr (by omega) rfl rfl
  rw [unpacked_zero (by rw [field]; omega) (by rw [fraction]; omega), hsign]

/-- **Adding to the fraction of a word** adds to its value, with a carry into the exponent field. -/
theorem finite_of_shifted {c : ℕ} (hpos : 0 < field w) (hlt : field w < 2046) (hlow : 2 ^ 52 ≤ c)
    (hhigh : c ≤ 2 ^ 53) (h : w'.toNat + (2 ^ 52 + fraction w) = w.toNat + c) :
    (unpacked w').isFinite = true ∧
      amount (unpacked w') = factor (sign w) * (c * 2 ^ ((field w : ℤ) - 1075)) := by
  have hsign : sign w' = sign w := by
    rw [sign, sign]
    refine if_congr ?_ rfl rfl
    rw [fraction] at h
    rw [field] at hlt
    omega
  rcases hhigh.lt_or_eq with hless | rfl
  · have hfield : field w' = field w := by
      rw [fraction] at h
      rw [field, field]
      omega
    have hfraction : 2 ^ 52 + fraction w' = c := by
      rw [fraction] at h ⊢
      omega
    obtain ⟨hm, heq⟩ := unpacked_normal (w := w') (by omega) (by omega)
    rw [heq]
    refine ⟨rfl, ?_⟩
    rw [amount, hsign, hfield, hfraction]
  · have hfield : field w' = field w + 1 := by
      rw [fraction] at h
      rw [field] at hlt
      rw [field, field]
      omega
    have hfraction : fraction w' = 0 := by
      rw [fraction] at h ⊢
      omega
    have hunit : (2 : ℚ) ^ (((field w + 1 : ℕ) : ℤ) - 1075) = 2 * 2 ^ ((field w : ℤ) - 1075) := by
      rw [← unit_succ]
      congr 1
      push_cast
      ring
    obtain ⟨hm, heq⟩ := unpacked_normal (w := w') (by omega) (by omega)
    rw [heq]
    refine ⟨rfl, ?_⟩
    rw [amount, hsign, hfield, hfraction, hunit]
    push_cast
    ring

/-! ## The floor -/

variable {x : Float}

/-- Below exponent field `1023` a value is less than one. -/
theorem abs_value_lt_one (h : field x.toBits < 1023) : |value x| < 1 := by
  change |amount (unpacked x.toBits)| < 1
  have hunit : ∀ {t : ℤ}, t ≤ 0 → (2 : ℚ) ^ t ≤ 1 := fun ht =>
    (unit_le_unit ht).trans (zpow_zero (2 : ℚ)).le
  have hcanonical := (canonical_unpacked (w := x.toBits) (by omega)).1
  rcases Nat.eq_zero_or_pos (field x.toBits) with hzero | hpos
  · rcases eq_or_ne (fraction x.toBits) 0 with hfraction | hfraction
    · rw [unpacked_zero hzero hfraction, amount_zero, abs_zero]
      exact one_pos
    · obtain ⟨hm, heq⟩ := unpacked_subnormal hzero hfraction
      rw [heq] at hcanonical ⊢
      exact (abs_amount_lt_unit hcanonical).trans_le (hunit (by norm_num))
  · obtain ⟨hm, heq⟩ := unpacked_normal hpos (by omega)
    rw [heq] at hcanonical ⊢
    exact (abs_amount_lt_unit hcanonical).trans_le (hunit (by omega))

/-- From exponent field `1075` on a value is integral. -/
theorem exists_int_of_large (h : 1075 ≤ field x.toBits) (hx : x.isFinite = true) :
    ∃ z : ℤ, value x = z := by
  obtain ⟨hm, heq⟩ := unpacked_normal (by omega) (isFinite_iff.mp hx)
  have hmultiple : Multiple 0 (value x) := by
    change Multiple 0 (amount (unpacked x.toBits))
    rw [heq, amount]
    have hmagnitude := (Multiple.unit (show 0 ≤ (field x.toBits : ℤ) - 1075 by omega)).int_mul
      ((2 ^ 52 + fraction x.toBits : ℕ) : ℤ)
    rw [Int.cast_natCast] at hmagnitude
    cases sign x.toBits
    · simpa [factor] using hmagnitude.neg
    · simpa [factor] using hmagnitude
  obtain ⟨z, hz⟩ := hmultiple
  exact ⟨z, by rw [hz, zpow_zero, mul_one]⟩

/-! ### The bits below the point -/

section Bits

variable {k : ℕ}

theorem toNat_unit (hlow : 1023 ≤ field w) (hhigh : field w < 1075) :
    ((1 : UInt64) <<< (1075 - exponentField w)).toNat = 2 ^ (1075 - field w) := by
  have hsub : (1075 - exponentField w).toNat = 1075 - field w := by
    rw [UInt64.toNat_sub_of_le _ _ (UInt64.le_iff_toNat_le.mpr ?_), toNat_exponentField]
    · rfl
    · rw [toNat_exponentField]
      exact hhigh.le
  rw [UInt64.toNat_shiftLeft, hsub, Nat.mod_eq_of_lt (show 1075 - field w < 64 by omega),
    UInt64.toNat_one, Nat.one_shiftLeft]
  exact Nat.mod_eq_of_lt (Nat.pow_lt_pow_right (by norm_num) (by omega))

theorem toNat_rest {unit : UInt64} (hunit : unit.toNat = 2 ^ k) :
    (w &&& (unit - 1)).toNat = w.toNat % 2 ^ k := by
  have hle : (1 : UInt64) ≤ unit := by
    rw [UInt64.le_iff_toNat_le, hunit]
    exact Nat.one_le_two_pow
  rw [UInt64.toNat_and, UInt64.toNat_sub_of_le _ _ hle, hunit]
  exact Nat.and_two_pow_sub_one_eq_mod _ _

/-- The mantissa, cut at the point. -/
theorem exists_split (hk : k ≤ 52) (w : UInt64) : ∃ q : ℕ,
    2 ^ 52 + fraction w = 2 ^ k * q + w.toNat % 2 ^ k ∧ 2 ^ 52 ≤ 2 ^ k * q ∧
      2 ^ k * (q + 1) ≤ 2 ^ 53 := by
  obtain ⟨d, hd⟩ : ∃ d, 52 = k + d := ⟨52 - k, by omega⟩
  have hlead : 2 ^ 52 = 2 ^ k * 2 ^ d := by rw [← pow_add, ← hd]
  have hdouble : 2 ^ 53 = 2 ^ k * 2 ^ (d + 1) := by rw [← pow_add]; congr 1; omega
  have hlt := fraction_lt w
  have hrest : (2 ^ 52 + fraction w) % 2 ^ k = w.toNat % 2 ^ k := by
    rw [fraction, Nat.add_mod, Nat.mod_mod_of_dvd _ (Dvd.intro _ hlead.symm), hlead,
      Nat.mul_mod_right, Nat.zero_add, Nat.mod_mod]
  refine ⟨(2 ^ 52 + fraction w) / 2 ^ k, ?_, ?_, ?_⟩
  · rw [← hrest, Nat.div_add_mod]
  · rw [hlead]
    refine Nat.mul_le_mul_left _ ((Nat.le_div_iff_mul_le (by positivity)).mpr ?_)
    rw [mul_comm]
    omega
  · rw [hdouble]
    refine Nat.mul_le_mul_left _ ((Nat.div_lt_iff_lt_mul (by positivity)).mpr ?_)
    rw [mul_comm, ← hdouble]
    omega

/-- **A value cut at the point**: without the bits after it, and with one more before it. -/
theorem exists_cut (hlow : 1023 ≤ field w) (hhigh : field w < 1075) (hk : k = 1075 - field w) :
    ∃ q : ℕ, amount (unpacked w) = factor (sign w) * (q + (w.toNat % 2 ^ k : ℕ) / 2 ^ k) ∧
      (∀ w' : UInt64, w'.toNat + w.toNat % 2 ^ k = w.toNat →
        (unpacked w').isFinite = true ∧ amount (unpacked w') = factor (sign w) * q) ∧
      ∀ w' : UInt64, w'.toNat + w.toNat % 2 ^ k = w.toNat + 2 ^ k →
        (unpacked w').isFinite = true ∧ amount (unpacked w') = factor (sign w) * (q + 1) := by
  obtain ⟨q, hsplit, hleast, hmost⟩ := exists_split (k := k) (by omega) w
  have hpos : (0 : ℚ) < 2 ^ k := by positivity
  have hunit : (2 : ℚ) ^ ((field w : ℤ) - 1075) = (2 ^ k)⁻¹ := by
    rw [← zpow_natCast, ← zpow_neg]
    congr 1
    omega
  have hshifted : ∀ (v : UInt64) (c : ℕ), 2 ^ 52 ≤ c → c ≤ 2 ^ 53 →
      v.toNat + (2 ^ 52 + fraction w) = w.toNat + c →
      (unpacked v).isFinite = true ∧ amount (unpacked v) = factor (sign w) * (c * (2 ^ k)⁻¹) := by
    intro v c hleast hmost hcarry
    rw [← hunit]
    exact finite_of_shifted (by omega) (by omega) hleast hmost hcarry
  have hmul : 2 ^ k * (q + 1) = 2 ^ k * q + 2 ^ k := Nat.mul_succ _ _
  refine ⟨q, ?_, fun w' hw' => ?_, fun w' hw' => ?_⟩
  · have hlt := fraction_lt w
    rw [(hshifted w _ (by omega) (by omega) rfl).2, hsplit]
    push_cast
    field_simp
  · obtain ⟨hfinite, hvalue⟩ := hshifted w' _ hleast (by omega) (by omega)
    refine ⟨hfinite, hvalue.trans ?_⟩
    push_cast
    field_simp
  · obtain ⟨hfinite, hvalue⟩ := hshifted w' (2 ^ k * (q + 1)) (by omega) hmost (by omega)
    refine ⟨hfinite, hvalue.trans ?_⟩
    push_cast
    field_simp

end Bits

theorem large_iff : exponentField w ≥ 1075 ↔ 1075 ≤ field w := by
  rw [ge_iff_le, UInt64.le_iff_toNat_le, toNat_exponentField]
  rfl

theorem small_iff : exponentField w < 1023 ↔ field w < 1023 := by
  rw [UInt64.lt_iff_toNat_lt, toNat_exponentField]
  rfl

/-- Large values are left alone. -/
theorem integralBelow_of_large (h : 1075 ≤ field x.toBits) : integralBelow x = x := by
  rw [integralBelow]
  dsimp only
  rw [if_pos (large_iff.mpr h)]

/-- A magnitude below one that is not negative is cut to zero. -/
theorem integralBelow_of_small (h : field x.toBits < 1023)
    (hzero : sign x.toBits = .positive ∨ value x = 0) :
    integralBelow x = Float.ofBits (signPart x.toBits) := by
  have hx : x.isFinite = true := isFinite_iff.mpr (by omega)
  have hlarge : ¬ 1075 ≤ field x.toBits := by omega
  rw [integralBelow]
  dsimp only
  rw [if_neg (large_iff.not.mpr hlarge), if_pos (small_iff.mpr h), if_pos]
  rw [Bool.or_eq_true, decide_eq_true_eq, signPart_eq_zero_iff, beq_iff hx isFinite_zero,
    value_zero]
  exact hzero

/-- One that is negative is cut to minus one. -/
theorem integralBelow_of_small_negative (h : field x.toBits < 1023)
    (hneg : ¬ (sign x.toBits = .positive ∨ value x = 0)) :
    integralBelow x = Float.ofBits (0x8000000000000000 ||| oneWord) := by
  have hx : x.isFinite = true := isFinite_iff.mpr (by omega)
  have hlarge : ¬ 1075 ≤ field x.toBits := by omega
  rw [integralBelow]
  dsimp only
  rw [if_neg (large_iff.not.mpr hlarge), if_pos (small_iff.mpr h), if_neg]
  rw [Bool.or_eq_true, decide_eq_true_eq, signPart_eq_zero_iff, beq_iff hx isFinite_zero,
    value_zero]
  exact hneg

/-- In between, the bits below the point are cleared, and a negative number gets one more. -/
theorem integralBelow_of_middle (hlow : 1023 ≤ field x.toBits) (hhigh : field x.toBits < 1075)
    {k : ℕ} (hk : k = 1075 - field x.toBits) :
    (x.toBits.toNat % 2 ^ k = 0 ∧ integralBelow x = x) ∨
      ∃ w', integralBelow x = Float.ofBits w' ∧ 0 < x.toBits.toNat % 2 ^ k ∧
        (sign x.toBits = .positive ∧ w'.toNat + x.toBits.toNat % 2 ^ k = x.toBits.toNat ∨
          sign x.toBits = .negative ∧
            w'.toNat + x.toBits.toNat % 2 ^ k = x.toBits.toNat + 2 ^ k) := by
  have hunit := toNat_unit hlow hhigh
  rw [integralBelow]
  dsimp only
  rw [if_neg (large_iff.not.mpr (by omega)),
    if_neg (small_iff.not.mpr (by omega))]
  rw [← hk] at hunit
  generalize (1 : UInt64) <<< (1075 - exponentField x.toBits) = unit at *
  have hrest := toNat_rest (w := x.toBits) hunit
  generalize x.toBits &&& (unit - 1) = rest at *
  by_cases hzero : rest = 0
  · rw [if_pos hzero]
    rw [hzero, UInt64.toNat_zero] at hrest
    exact .inl ⟨hrest.symm, rfl⟩
  · have hpos : 0 < x.toBits.toNat % 2 ^ k := by
      rw [← hrest, Nat.pos_iff_ne_zero]
      exact fun h => hzero (UInt64.toNat_inj.mp h)
    have hle : x.toBits.toNat % 2 ^ k ≤ x.toBits.toNat := Nat.mod_le _ _
    have hsub : (x.toBits - rest).toNat = x.toBits.toNat - x.toBits.toNat % 2 ^ k := by
      rw [UInt64.toNat_sub_of_le _ _ (UInt64.le_iff_toNat_le.mpr (hrest ▸ hle)), hrest]
    rw [if_neg hzero]
    by_cases hsign : signPart x.toBits = 0
    · rw [if_pos hsign]
      exact .inr ⟨_, rfl, hpos, .inl ⟨signPart_eq_zero_iff.mp hsign, by omega⟩⟩
    · rw [if_neg hsign]
      have hnegative : sign x.toBits = .negative := by
        cases h : sign x.toBits
        · rfl
        · exact absurd (signPart_eq_zero_iff.mpr h) hsign
      have hbound : 2 ^ k ≤ 2 ^ 52 := Nat.pow_le_pow_right two_pos (by omega)
      have hroom : x.toBits.toNat + 2 ^ 52 < 2 ^ 64 := by
        have := x.toBits.toNat_lt
        rw [field] at hhigh
        omega
      refine .inr ⟨_, rfl, hpos, .inr ⟨hnegative, ?_⟩⟩
      rw [UInt64.toNat_add, hsub, hunit, Nat.mod_eq_of_lt (by omega)]
      omega

/-- The sign of a word is that of its value. -/
theorem factor_mul_amount_nonneg (hw : field w < 2047) :
    0 ≤ factor (sign w) * amount (unpacked w) := by
  have hsquare : factor (sign w) * factor (sign w) = 1 := by cases sign w <;> norm_num [factor]
  rcases Nat.eq_zero_or_pos (field w) with hzero | hpos
  · rcases eq_or_ne (fraction w) 0 with hfraction | hfraction
    · rw [unpacked_zero hzero hfraction, amount_zero, mul_zero]
    · obtain ⟨hm, heq⟩ := unpacked_subnormal hzero hfraction
      rw [heq, amount, ← mul_assoc, hsquare, one_mul]
      positivity
  · obtain ⟨hm, heq⟩ := unpacked_normal hpos hw
    rw [heq, amount, ← mul_assoc, hsquare, one_mul]
    positivity

theorem eq_floor {a b : ℚ} {z : ℤ} (ha : a = z) (hle : z ≤ b) (hlt : b < z + 1) : a = ⌊b⌋ := by
  rw [Int.floor_eq_iff.mpr ⟨hle, hlt⟩, ha]

theorem integralBelow_exact_small (h : field x.toBits < 1023) :
    (integralBelow x).isFinite = true ∧ value (integralBelow x) = ⌊value x⌋ := by
  have hsign : 0 ≤ factor (sign x.toBits) * value x := factor_mul_amount_nonneg (by omega)
  obtain ⟨hlow, hhigh⟩ := abs_lt.mp (abs_value_lt_one h)
  by_cases hzero : sign x.toBits = .positive ∨ value x = 0
  · have hnonneg : 0 ≤ value x := by
      rcases hzero with hpositive | heq
      · rw [hpositive, factor, one_mul] at hsign
        exact hsign
      · exact heq.ge
    rw [integralBelow_of_small h hzero, isFinite_ofBits, value_ofBits, unpacked_signPart]
    exact ⟨rfl, eq_floor (z := 0) (by simp) (by simpa using hnonneg) (by simpa using hhigh)⟩
  · obtain ⟨hnegative, hne⟩ := not_or.mp hzero
    have hneg : value x < 0 := by
      cases hs : sign x.toBits
      · rw [hs, factor] at hsign
        exact lt_of_le_of_ne (by linarith) hne
      · exact absurd hs hnegative
    have hone : unpacked (0x8000000000000000 ||| oneWord) =
        .finite .negative (2 ^ 52) (-52) (by norm_num) := by rfl
    rw [integralBelow_of_small_negative h hzero, isFinite_ofBits, value_ofBits, hone]
    refine ⟨rfl, eq_floor (z := -1) (by norm_num [amount, factor]) ?_ ?_⟩
    · push_cast
      exact hlow.le
    · push_cast
      linarith

theorem integralBelow_exact_middle (hlow : 1023 ≤ field x.toBits) (hhigh : field x.toBits < 1075) :
    (integralBelow x).isFinite = true ∧ value (integralBelow x) = ⌊value x⌋ := by
  obtain ⟨k, hk⟩ : ∃ k, k = 1075 - field x.toBits := ⟨_, rfl⟩
  obtain ⟨q, hcut, hless, hmore⟩ := exists_cut hlow hhigh hk
  change value x = _ at hcut
  have hunit : (0 : ℚ) < 2 ^ k := by positivity
  have hrest : ((x.toBits.toNat % 2 ^ k : ℕ) : ℚ) / 2 ^ k < 1 := by
    rw [div_lt_one hunit]
    exact_mod_cast Nat.mod_lt _ (by positivity)
  rcases integralBelow_of_middle hlow hhigh hk with
    ⟨hzero, heq⟩ | ⟨w', heq, hpos, ⟨hpositive, hw'⟩ | ⟨hnegative, hw'⟩⟩
  · rw [heq, hcut, hzero, Nat.cast_zero, zero_div, add_zero]
    refine ⟨isFinite_iff.mpr (by omega), ?_⟩
    cases sign x.toBits
    · exact eq_floor (z := -q) (by simp [factor]) (by simp [factor]) (by simp [factor])
    · exact eq_floor (z := q) (by simp [factor]) (by simp [factor]) (by simp [factor])
  · obtain ⟨hfinite, hvalue⟩ := hless w' hw'
    rw [hpositive, factor, one_mul] at hvalue hcut
    rw [heq, isFinite_ofBits, value_ofBits, hcut]
    refine ⟨hfinite, eq_floor (z := q) (by simpa using hvalue) ?_ ?_⟩
    · push_cast
      linarith [div_nonneg (Nat.cast_nonneg (α := ℚ) (x.toBits.toNat % 2 ^ k)) hunit.le]
    · push_cast
      linarith
  · have hpos' : (0 : ℚ) < (x.toBits.toNat % 2 ^ k : ℕ) / 2 ^ k :=
      div_pos (by exact_mod_cast hpos) hunit
    obtain ⟨hfinite, hvalue⟩ := hmore w' hw'
    rw [hnegative, factor] at hvalue hcut
    rw [heq, isFinite_ofBits, value_ofBits, hcut]
    refine ⟨hfinite, eq_floor (z := -(q + 1)) ?_ ?_ ?_⟩
    · push_cast
      linarith
    · push_cast
      linarith
    · push_cast
      linarith

/-- **The result is the floor of the value.** -/
theorem integralBelow_exact (hx : x.isFinite = true) :
    (integralBelow x).isFinite = true ∧ value (integralBelow x) = ⌊value x⌋ := by
  rcases Nat.lt_or_ge (field x.toBits) 1023 with hsmall | hlow
  · exact integralBelow_exact_small hsmall
  · rcases Nat.lt_or_ge (field x.toBits) 1075 with hhigh | hlarge
    · exact integralBelow_exact_middle hlow hhigh
    · obtain ⟨z, hz⟩ := exists_int_of_large hlarge hx
      rw [integralBelow_of_large hlarge, hz, Int.floor_intCast]
      exact ⟨hx, rfl⟩

/-- **Between zero and one** the result is the zero with a positive sign. -/
theorem integralBelow_proper (hx : x.isFinite = true) (hpos : 0 < value x) (hlt : value x < 1) :
    (integralBelow x).toModel.unpack = .zero .positive := by
  have hfinite := isFinite_iff.mp hx
  have hsmall : field x.toBits < 1023 := by
    by_contra hge
    obtain ⟨hm, heq⟩ := unpacked_normal (w := x.toBits) (by omega) hfinite
    have hcanonical := (canonical_unpacked hfinite).1
    rw [heq] at hcanonical
    have hle := unit_le_abs_amount hcanonical (by omega)
    rw [← heq] at hle
    have hone : (1 : ℚ) ≤ |value x| :=
      ((zpow_zero (2 : ℚ)).symm.le.trans (unit_le_unit (by omega))).trans hle
    rw [abs_of_pos hpos] at hone
    exact absurd hlt hone.not_gt
  have hpositive : sign x.toBits = .positive := by
    have hsign : 0 ≤ factor (sign x.toBits) * value x := factor_mul_amount_nonneg hfinite
    cases hs : sign x.toBits
    · rw [hs, factor] at hsign
      linarith
    · rfl
  rw [integralBelow_of_small hsmall (.inl hpositive), unpack_ofBits, unpacked_signPart, hpositive]

end PatchDynamics.Rounding
