import Mathlib
import PatchDynamics.Rounding
import PatchDynamics.Proofs.Rounding.Nearest

/-!
# The numbers that words hold

A word of 64 bits holds a sign, an exponent field and a fraction; arithmetic takes it apart
(`unpack`), computes with a mantissa and an exponent of any size, and puts the result together again
(`pack`).

* `value x` — the rational number that a finite word holds;
* `lt_iff`, `le_iff` — finite words are compared as their values are;
* `eq_of_value` — a value other than zero is held by one word;
* `unpack_pack`, `unpack_pack_overflow` — what becomes of a result when it is packed.
-/

namespace PatchDynamics.Rounding

open Float.Model (UnpackedFloat Format)
open Float.Model.UnpackedFloat

/-! ## Fields -/

/-- What a word holds, unpacked. -/
def unpacked (w : UInt64) : UnpackedFloat := unpack Format.binary64 w.toBitVec

/-- The exponent field of a word. -/
def field (w : UInt64) : ℕ := w.toNat / 2 ^ 52 % 2 ^ 11

/-- The fraction of a word. -/
def fraction (w : UInt64) : ℕ := w.toNat % 2 ^ 52

/-- The sign of a word. -/
def sign (w : UInt64) : Sign := if w.toNat < 2 ^ 63 then .positive else .negative

variable {w : UInt64}

theorem fraction_lt (w : UInt64) : fraction w < 2 ^ 52 := Nat.mod_lt _ (by norm_num)

theorem toNat_unpackMantissa (w : UInt64) :
    (@unpackMantissa Format.binary64 w.toBitVec).toNat = fraction w := by
  rw [unpackMantissa_def, BitVec.extractLsb'_toNat, Nat.shiftRight_zero]
  rfl

theorem toNat_unpackExponent (w : UInt64) :
    (@unpackExponent Format.binary64 w.toBitVec).toNat = field w := by
  rw [unpackExponent_def, BitVec.extractLsb'_toNat, Nat.shiftRight_eq_div_pow]
  rfl

theorem ofBitVec_unpackSign (w : UInt64) :
    Sign.ofBitVec (@unpackSign Format.binary64 w.toBitVec) = sign w := by
  have hlt := w.toNat_lt
  have hbit : (@unpackSign Format.binary64 w.toBitVec).toNat = w.toNat / 2 ^ 63 := by
    rw [unpackSign_def, BitVec.extractLsb'_toNat, Nat.shiftRight_eq_div_pow]
    change w.toNat / 2 ^ 63 % 2 ^ 1 = _
    omega
  rw [Sign.ofBitVec, sign]
  refine if_congr ?_ rfl rfl
  rw [← BitVec.toNat_inj, hbit]
  change _ / _ = 0 ↔ _
  omega

/-- The leading bit that a normal number does not store. -/
theorem toNat_append_one (b : BitVec 52) : (1#1 ++ b).toNat = 2 ^ 52 + b.toNat := by
  rw [BitVec.toNat_append, ← Nat.shiftLeft_add_eq_or_of_lt b.isLt]
  rfl

theorem exponent_eq_ones_iff :
    @unpackExponent Format.binary64 w.toBitVec = -1#_ ↔ field w = 2047 := by
  rw [← BitVec.toNat_inj, toNat_unpackExponent]
  rfl

theorem exponent_eq_zero_iff :
    @unpackExponent Format.binary64 w.toBitVec = 0#_ ↔ field w = 0 := by
  rw [← BitVec.toNat_inj, toNat_unpackExponent]
  rfl

theorem mantissa_eq_zero_iff :
    @unpackMantissa Format.binary64 w.toBitVec = 0#_ ↔ fraction w = 0 := by
  rw [← BitVec.toNat_inj, toNat_unpackMantissa]
  rfl

theorem unpacked_normal (hpos : 0 < field w) (hlt : field w < 2047) :
    ∃ h, unpacked w = .finite (sign w) (2 ^ 52 + fraction w) (field w - 1075) h := by
  have hbig := (exponent_eq_ones_iff (w := w)).not.mpr (by omega)
  have hzero := (exponent_eq_zero_iff (w := w)).not.mpr (by omega)
  have happend := toNat_append_one (@unpackMantissa Format.binary64 w.toBitVec)
  rw [toNat_unpackMantissa] at happend
  refine ⟨by positivity, ?_⟩
  rw [unpacked, unpack]
  dsimp only
  rw [if_neg hbig, if_neg hzero]
  simp only [ofBitVec_unpackSign, toNat_unpackExponent, happend]
  rfl

theorem unpacked_subnormal (hzero : field w = 0) (hpos : fraction w ≠ 0) :
    ∃ h, unpacked w = .finite (sign w) (fraction w) (-1074) h := by
  have hbig := (exponent_eq_ones_iff (w := w)).not.mpr (by omega)
  have hfield := (exponent_eq_zero_iff (w := w)).mpr hzero
  refine ⟨by positivity, ?_⟩
  rw [unpacked, unpack]
  dsimp only
  rw [if_neg hbig, if_pos hfield, dif_neg (mantissa_eq_zero_iff.not.mpr hpos)]
  simp only [ofBitVec_unpackSign, toNat_unpackExponent, toNat_unpackMantissa, hzero]
  rfl

theorem unpacked_zero (hzero : field w = 0) (hfraction : fraction w = 0) :
    unpacked w = .zero (sign w) := by
  have hbig := (exponent_eq_ones_iff (w := w)).not.mpr (by omega)
  have hfield := (exponent_eq_zero_iff (w := w)).mpr hzero
  rw [unpacked, unpack]
  dsimp only
  rw [if_neg hbig, if_pos hfield, dif_pos (mantissa_eq_zero_iff.mpr hfraction), ofBitVec_unpackSign]

theorem isFinite_unpacked : (unpacked w).isFinite = true ↔ field w < 2047 := by
  have hfield : field w < 2048 := Nat.mod_lt _ (by norm_num)
  rcases Nat.lt_or_ge (field w) 2047 with hlt | hge
  · refine iff_of_true ?_ hlt
    rcases Nat.eq_zero_or_pos (field w) with hzero | hpos
    · rcases eq_or_ne (fraction w) 0 with hfraction | hfraction
      · rw [unpacked_zero hzero hfraction]
        rfl
      · obtain ⟨h, heq⟩ := unpacked_subnormal hzero hfraction
        rw [heq]
        rfl
    · obtain ⟨h, heq⟩ := unpacked_normal hpos hlt
      rw [heq]
      rfl
  · refine iff_of_false ?_ (Nat.not_lt.mpr hge)
    have hbig := (exponent_eq_ones_iff (w := w)).mpr (by omega)
    rw [unpacked, unpack]
    dsimp only
    rw [if_pos hbig]
    split <;> exact Bool.false_ne_true

/-- The word of a number made from a word holds the same. -/
theorem unpack_ofBits (w : UInt64) : (Float.ofBits w).toModel.unpack = unpacked w := by
  have hpack := @pack_unpack Format.binary64 w.toBitVec (by decide)
  change unpack Format.binary64 (pack Format.binary64 (unpack Format.binary64 w.toBitVec)) = _
  rw [hpack, unpacked]
  split
  · next h =>
    rw [unpack_packedNaN]
    simp only [isNaNBits, decide_eq_true_eq] at h
    simp [unpack, h]
  · rfl

/-! ## Canonical numbers -/

/-- The form of the numbers that words hold: all 53 bits of the mantissa are used, unless the
smallest exponent is reached. -/
def Canonical : UnpackedFloat → Prop
  | .finite _ m e _ => -1074 ≤ e ∧ m < 2 ^ 53 ∧ (e = -1074 ∨ 2 ^ 52 ≤ m)
  | _ => True

/-- The exponent of a number fits into its field. -/
def InRange : UnpackedFloat → Prop
  | .finite _ _ e _ => e ≤ 971
  | _ => True

theorem canonical_unpacked (hw : field w < 2047) :
    Canonical (unpacked w) ∧ InRange (unpacked w) := by
  have hlt := fraction_lt w
  rcases Nat.eq_zero_or_pos (field w) with hzero | hpos
  · rcases eq_or_ne (fraction w) 0 with hfraction | hfraction
    · rw [unpacked_zero hzero hfraction]
      exact ⟨trivial, trivial⟩
    · obtain ⟨h, heq⟩ := unpacked_subnormal hzero hfraction
      rw [heq]
      exact ⟨⟨le_rfl, by omega, .inl rfl⟩, by norm_num [InRange]⟩
  · obtain ⟨h, heq⟩ := unpacked_normal hpos hw
    rw [heq, InRange]
    exact ⟨⟨by omega, by omega, .inr (by omega)⟩, by omega⟩

variable {s : Sign} {m : ℕ} {e : ℤ} {hm : 0 < m}

theorem log2_of_canonical (h : Canonical (.finite s m e hm)) : m.log2 + 1 = 53 ↔ 2 ^ 52 ≤ m := by
  have hlt : m.log2 < 53 := (Nat.log2_lt hm.ne').mpr h.2.1
  rw [← Nat.le_log2 hm.ne']
  omega

theorem ofNat_ne {k j b : ℕ} (hb : b < 2 ^ k) (hj : j < 2 ^ k) (h : b ≠ j) :
    ¬ BitVec.ofNat k b = BitVec.ofNat k j := by
  rw [← BitVec.toNat_inj, BitVec.toNat_ofNat, BitVec.toNat_ofNat, Nat.mod_eq_of_lt hb,
    Nat.mod_eq_of_lt hj]
  exact h

/-- A finite number other than zero survives packing. -/
theorem pack_finite (h : Canonical (.finite s m e hm)) (he : e ≤ 971) :
    unpack Format.binary64 (pack Format.binary64 (.finite s m e hm)) = .finite s m e hm := by
  obtain ⟨hmin, hlt, hlead⟩ := id h
  obtain ⟨b, hb⟩ : ∃ b : ℕ, e + 1075 = b := ⟨(e + 1075).toNat, by omega⟩
  have hbiased : (e + Format.binary64.exponentBias +
      Format.binary64.mantissaBitsWithoutImplicit).toNat = b := by
    change (e + 1023 + 52).toNat = b
    omega
  rw [pack]
  dsimp only
  rw [hbiased, if_neg (by omega)]
  by_cases hbits : m.log2 + 1 = Format.binary64.mantissaBits
  · have hfull : 2 ^ 52 ≤ m := (log2_of_canonical h).mp hbits
    have hmantissa : (1#1 ++ BitVec.ofNat 52 m).toNat = m := by
      rw [toNat_append_one, BitVec.toNat_ofNat]
      omega
    have hones : ¬ BitVec.ofNat 11 b = -1#11 :=
      ofNat_ne (j := 2047) (by omega) (by norm_num) (by omega)
    have hzero : ¬ BitVec.ofNat 11 b = 0#11 := ofNat_ne (by omega) (by norm_num) (by omega)
    have hexponent : (BitVec.ofNat 11 b).toNat = b := by
      rw [BitVec.toNat_ofNat, Nat.mod_eq_of_lt (by omega)]
    rw [if_pos hbits, unpack]
    simp only [unpackMantissa_packComponents, unpackExponent_packComponents,
      unpackSign_packComponents, Sign.ofBitVec_toBitVec, hones, hzero, if_false, hmantissa,
      hexponent]
    congr 1
    change (b : ℤ) - 1075 = e
    omega
  · have hfew : m < 2 ^ 52 := Nat.lt_of_not_le ((log2_of_canonical h).not.mp hbits)
    obtain rfl : e = -1074 := hlead.resolve_right (Nat.not_le.mpr hfew)
    have hones : ¬ 0#11 = -1#11 := by decide
    have hzero : ¬ BitVec.ofNat 52 m = 0#52 := ofNat_ne (by omega) (by norm_num) hm.ne'
    have hmantissa : (BitVec.ofNat 52 m).toNat = m := by
      rw [BitVec.toNat_ofNat, Nat.mod_eq_of_lt hfew]
    rw [if_neg hbits, unpack]
    simp only [unpackMantissa_packComponents, unpackExponent_packComponents,
      unpackSign_packComponents, Sign.ofBitVec_toBitVec, hones, hzero, if_false, if_true, dif_neg,
      not_false_eq_true, hmantissa]
    rfl

/-- **A canonical number in range survives packing.** -/
theorem unpack_pack {u : UnpackedFloat} (h : Canonical u) (hr : InRange u) :
    (Float.ofModel (.pack u)).toModel.unpack = u := by
  cases u with
  | finite s m e hm => exact pack_finite h hr
  | zero s => cases s <;> rfl
  | infinity s => cases s <;> rfl
  | notANumber => rfl

/-- **A number beyond the range becomes infinite.** -/
theorem unpack_pack_overflow (he : 971 < e) :
    (Float.ofModel (.pack (.finite s m e hm))).toModel.unpack = .infinity s := by
  have hbiased : 2 ^ 11 ≤ (e + Format.binary64.exponentBias +
      Format.binary64.mantissaBitsWithoutImplicit).toNat + 1 := by
    change 2 ^ 11 ≤ (e + 1023 + 52).toNat + 1
    omega
  have hpack : pack Format.binary64 (.finite s m e hm) = packedInfinity Format.binary64 s := by
    rw [pack]
    dsimp only
    rw [if_pos hbiased]
  change unpack Format.binary64 (pack Format.binary64 (.finite s m e hm)) = _
  rw [hpack]
  cases s <;> rfl

/-! ## Values -/

/-- A sign as a factor. -/
def factor : Sign → ℚ
  | .negative => -1
  | .positive => 1

/-- The number that an unpacked word stands for, zero for those that stand for none. -/
def amount : UnpackedFloat → ℚ
  | .finite s m e _ => factor s * (m * 2 ^ e)
  | _ => 0

/-- The number that a finite word holds. -/
def value (x : Float) : ℚ := amount x.toModel.unpack

@[simp]
theorem abs_factor (s : Sign) : |factor s| = 1 := by cases s <;> simp [factor]

theorem abs_amount : |amount (.finite s m e hm)| = m * 2 ^ e := by
  have := unit_pos e
  rw [amount, abs_mul, abs_factor, one_mul, abs_of_nonneg (by positivity)]

@[simp]
theorem amount_zero (s : Sign) : amount (.zero s) = 0 := rfl

theorem amount_pos : 0 < amount (.finite .positive m e hm) := by
  have := mul_pos (by exact_mod_cast hm : (0 : ℚ) < m) (unit_pos e)
  simpa [amount, factor] using this

theorem amount_neg : amount (.finite .negative m e hm) < 0 := by
  have := mul_pos (by exact_mod_cast hm : (0 : ℚ) < m) (unit_pos e)
  simpa [amount, factor] using this

/-- The exponent of a canonical number is the place of its last bit. -/
theorem place_of_canonical (h : Canonical (.finite s m e hm)) : Place (m * 2 ^ e) e := by
  obtain ⟨hmin, hlt, hlead⟩ := h
  have hunit := unit_pos e
  have habs : |(m : ℚ) * 2 ^ e| = m * 2 ^ e := abs_of_nonneg (by positivity)
  refine ⟨hmin, ?_, hlead.imp_right fun hle => ?_⟩
  · rw [habs, add_comm, unit_add]
    exact mul_lt_mul_of_pos_right (by exact_mod_cast hlt) hunit
  · rw [habs, add_comm, unit_add]
    exact mul_le_mul_of_nonneg_right (by exact_mod_cast hle) hunit.le

theorem abs_amount_lt_unit (h : Canonical (.finite s m e hm)) :
    |amount (.finite s m e hm)| < 2 ^ (e + 53) := by
  rw [abs_amount]
  exact (le_abs_self _).trans_lt (place_of_canonical h).below

theorem unit_le_abs_amount (h : Canonical (.finite s m e hm)) (he : e ≠ -1074) :
    2 ^ (e + 52) ≤ |amount (.finite s m e hm)| := by
  have hlead := (place_of_canonical h).leading.resolve_left he
  have := unit_pos e
  rw [abs_amount]
  exact hlead.trans (abs_of_nonneg (by positivity)).le

theorem representable_amount {u : UnpackedFloat} (h : Canonical u) : Representable (amount u) := by
  cases u with
  | finite s m e hm =>
    refine ⟨e, h.1, ⟨(factor s).num * m, ?_⟩, ?_⟩
    · cases s <;> simp [amount, factor]
    · exact (abs_amount_lt_unit h).le
  | _ => exact .zero

theorem abs_amount_lt {u : UnpackedFloat} (h : Canonical u) (hr : InRange u) :
    |amount u| < 2 ^ (1024 : ℤ) := by
  cases u with
  | finite s m e hm =>
    have he : e ≤ 971 := hr
    exact (abs_amount_lt_unit h).trans_le (unit_le_unit (by omega))
  | _ => exact (abs_zero (α := ℚ)).trans_lt (unit_pos _)

variable {x y : Float}

theorem isFinite_iff : x.isFinite = true ↔ field x.toBits < 2047 := isFinite_unpacked

theorem canonical_unpack (hx : x.isFinite = true) :
    Canonical x.toModel.unpack ∧ InRange x.toModel.unpack := canonical_unpacked (isFinite_iff.mp hx)

theorem representable_value (hx : x.isFinite = true) : Representable (value x) :=
  representable_amount (canonical_unpack hx).1

theorem abs_value_lt (hx : x.isFinite = true) : |value x| < 2 ^ (1024 : ℤ) :=
  abs_amount_lt (canonical_unpack hx).1 (canonical_unpack hx).2

/-- A number so small that it has less than 53 bits. -/
def Subnormal (x : Float) : Prop := field x.toBits = 0 ∧ fraction x.toBits ≠ 0

instance (x : Float) : Decidable (Subnormal x) := inferInstanceAs (Decidable (_ ∧ _))

theorem Subnormal.abs_value_lt (h : Subnormal x) : |value x| < 2 ^ (-1022 : ℤ) := by
  obtain ⟨hm, heq⟩ := unpacked_subnormal h.1 h.2
  change |amount (unpacked x.toBits)| < _
  rw [heq, abs_amount, show (-1022 : ℤ) = 52 + -1074 by norm_num, unit_add]
  exact mul_lt_mul_of_pos_right (by exact_mod_cast fraction_lt _) (unit_pos _)

/-! ## Comparisons -/

/-- The larger exponent decides, then the larger mantissa. -/
theorem compare_magnitude {s' : Sign} {m' : ℕ} {e' : ℤ} {hm' : 0 < m'}
    (h : Canonical (.finite s m e hm)) (h' : Canonical (.finite s' m' e' hm')) :
    (compare e e').then (compare m m') = compare ((m : ℚ) * 2 ^ e) (m' * 2 ^ e') := by
  have hless : ∀ {s s' : Sign} {m m' : ℕ} {e e' : ℤ} {hm : 0 < m} {hm' : 0 < m'},
      Canonical (.finite s m e hm) → Canonical (.finite s' m' e' hm') → e < e' →
      (m : ℚ) * 2 ^ e < m' * 2 ^ e' := by
    intro s s' m m' e e' hm hm' h h' hlt
    have hplace := place_of_canonical h
    have hplace' := place_of_canonical h'
    have hpos := unit_pos e'
    have hlead := hplace'.leading.resolve_left (by have := hplace.least; omega)
    rw [abs_of_nonneg (by positivity)] at hlead
    exact ((le_abs_self _).trans_lt hplace.below).trans_le ((unit_le_unit (by omega)).trans hlead)
  rcases lt_trichotomy e e' with hlt | rfl | hgt
  · rw [compare_lt_iff_lt.mpr hlt, compare_lt_iff_lt.mpr (hless h h' hlt)]
    rfl
  · have hunit := unit_pos e
    rw [compare_eq_iff_eq.mpr rfl]
    rcases lt_trichotomy m m' with hlt | rfl | hgt
    · rw [compare_lt_iff_lt.mpr hlt, compare_lt_iff_lt.mpr]
      · rfl
      · exact mul_lt_mul_of_pos_right (by exact_mod_cast hlt) hunit
    · rw [compare_eq_iff_eq.mpr rfl, compare_eq_iff_eq.mpr rfl]
      rfl
    · rw [compare_gt_iff_gt.mpr hgt, compare_gt_iff_gt.mpr]
      · rfl
      · exact mul_lt_mul_of_pos_right (by exact_mod_cast hgt) hunit
  · rw [compare_gt_iff_gt.mpr hgt, compare_gt_iff_gt.mpr (hless h' h hgt)]
    rfl

theorem compare_neg_neg (a b : ℚ) : compare (-a) (-b) = (compare a b).swap := by
  rcases lt_trichotomy a b with hlt | rfl | hgt
  · rw [compare_lt_iff_lt.mpr hlt, compare_gt_iff_gt.mpr (neg_lt_neg hlt)]
    rfl
  · rw [compare_eq_iff_eq.mpr rfl, compare_eq_iff_eq.mpr rfl]
    rfl
  · rw [compare_gt_iff_gt.mpr hgt, compare_lt_iff_lt.mpr (neg_lt_neg hgt)]
    rfl

/-- **Canonical numbers are compared as what they stand for.** -/
theorem compare_eq {u v : UnpackedFloat} (hu : Canonical u) (hv : Canonical v)
    (hfu : u.isFinite = true) (hfv : v.isFinite = true) :
    u.compare v = some (compare (amount u) (amount v)) := by
  cases u with
  | infinity s => cases hfu
  | notANumber => cases hfu
  | zero s =>
    cases v with
    | infinity s => cases hfv
    | notANumber => cases hfv
    | zero s' =>
      rw [amount_zero, amount_zero, compare_eq_iff_eq.mpr rfl]
      cases s <;> cases s' <;> rfl
    | finite s' m' e' hm' =>
      cases s' with
      | negative => rw [amount_zero, compare_gt_iff_gt.mpr amount_neg]; rfl
      | positive => rw [amount_zero, compare_lt_iff_lt.mpr amount_pos]; rfl
  | finite s m e hm =>
    cases v with
    | infinity s => cases hfv
    | notANumber => cases hfv
    | zero s' =>
      cases s with
      | negative => rw [amount_zero, compare_lt_iff_lt.mpr amount_neg]; rfl
      | positive => rw [amount_zero, compare_gt_iff_gt.mpr amount_pos]; rfl
    | finite s' m' e' hm' =>
      have hmagnitude := compare_magnitude hu hv
      cases s with
      | negative =>
        cases s' with
        | negative =>
          change some ((compare e e').then (compare m m')).swap = _
          rw [hmagnitude, ← compare_neg_neg]
          simp [amount, factor]
        | positive => rw [compare_lt_iff_lt.mpr (amount_neg.trans amount_pos)]; rfl
      | positive =>
        cases s' with
        | negative => rw [compare_gt_iff_gt.mpr (amount_neg.trans amount_pos)]; rfl
        | positive =>
          change some ((compare e e').then (compare m m')) = _
          rw [hmagnitude]
          simp [amount, factor]

/-- **Finite words are compared as their values.** -/
theorem lt_iff (hx : x.isFinite = true) (hy : y.isFinite = true) : x < y ↔ value x < value y := by
  have hcompare := compare_eq (canonical_unpack hx).1 (canonical_unpack hy).1 hx hy
  have hlt : x < y ↔ (x.toModel.unpack.compare y.toModel.unpack == some .lt) = true :=
    decide_eq_true_iff
  rw [hlt, hcompare, value, value, ← compare_lt_iff_lt]
  simp

theorem le_iff (hx : x.isFinite = true) (hy : y.isFinite = true) : x ≤ y ↔ value x ≤ value y := by
  have hcompare := compare_eq (canonical_unpack hx).1 (canonical_unpack hy).1 hx hy
  have hle : x ≤ y ↔ (x.toModel.unpack.compare y.toModel.unpack).any (·.isLE) = true :=
    decide_eq_true_iff
  rw [hle, hcompare, value, value, ← compare_le_iff_le]
  simp [Ordering.isLE_iff_ne_gt]

theorem beq_iff (hx : x.isFinite = true) (hy : y.isFinite = true) :
    (x == y) = true ↔ value x = value y := by
  have hcompare := compare_eq (canonical_unpack hx).1 (canonical_unpack hy).1 hx hy
  have hbeq : (x == y) = true ↔ (x.toModel.unpack.compare y.toModel.unpack == some .eq) = true :=
    Iff.rfl
  rw [hbeq, hcompare, value, value, ← compare_eq_iff_eq]
  simp

/-! ## Words of a value -/

/-- A word is known from what it holds. -/
theorem eq_of_unpack (h : x.toModel.unpack = y.toModel.unpack) : x = y :=
  Float.toBits_inj.mp (UInt64.toBitVec_inj.mp
    ((unpack_inj_of_valid x.toModel.valid y.toModel.valid (by decide)).mp h))

/-- **A value other than zero** is held by one word. -/
theorem eq_of_value (hx : x.isFinite = true) (hy : y.isFinite = true) (h : value x = value y)
    (hne : value x ≠ 0) : x = y := by
  have hcompare := compare_eq (canonical_unpack hx).1 (canonical_unpack hy).1 hx hy
  rw [compare_eq_iff_eq.mpr (show amount _ = amount _ from h)] at hcompare
  have hbeq : (x.toModel.unpack.beq y.toModel.unpack) = true := by
    rw [UnpackedFloat.beq, hcompare]
    rfl
  obtain ⟨-, -, heq | ⟨hzero, -⟩ | ⟨hzero, -⟩⟩ := (beq_iff_ne_notANumber_and_eq _ _).mp hbeq
  · exact eq_of_unpack heq
  · exact absurd (by rw [value, hzero, amount_zero]) hne
  · exact absurd (by rw [value, hzero, amount_zero]) hne

/-- A number of 53 bits that is in range is held by a word. -/
theorem exists_of_place {r : ℚ} {t : ℤ} (hplace : Place r t) (hr : Multiple t r) (hpos : 0 < r)
    (hlt : r < 2 ^ (1024 : ℤ)) : ∃ x : Float, x.isFinite = true ∧ value x = r := by
  obtain ⟨n, rfl⟩ := hr
  have hunit := unit_pos t
  obtain ⟨m, rfl⟩ := Int.eq_ofNat_of_zero_le
    (by exact_mod_cast (pos_of_mul_pos_left hpos hunit.le).le : 0 ≤ n)
  rw [Int.cast_natCast] at *
  have hm : 0 < m := by exact_mod_cast pos_of_mul_pos_left hpos hunit.le
  obtain ⟨hleast, hbelow, hleading⟩ := hplace
  rw [abs_of_pos hpos, add_comm, unit_add] at hbelow
  have hcanonical : Canonical (.finite .positive m t hm) := by
    refine ⟨hleast, by exact_mod_cast lt_of_mul_lt_mul_right hbelow hunit.le,
      hleading.imp_right fun hle => ?_⟩
    rw [abs_of_pos hpos, add_comm, unit_add] at hle
    exact_mod_cast le_of_mul_le_mul_right hle hunit
  have hrange : InRange (.finite .positive m t hm) := by
    rcases hleading with rfl | hle
    · norm_num [InRange]
    · rw [abs_of_pos hpos] at hle
      have := lt_of_unit_lt (hle.trans_lt hlt)
      exact (by omega : t ≤ 971)
  have hunpack := unpack_pack hcanonical hrange
  refine ⟨.ofModel (.pack (.finite .positive m t hm)), ?_, ?_⟩
  · change UnpackedFloat.isFinite (Float.toModel _).unpack = true
    rw [hunpack]
    rfl
  · rw [value, hunpack, amount, factor, one_mul]

/-- A finite word without a value is a zero. -/
theorem unpack_of_value_eq_zero (hx : x.isFinite = true) (h : value x = 0) :
    ∃ s, x.toModel.unpack = .zero s := by
  rw [value] at h
  change x.toModel.unpack.isFinite = true at hx
  cases hunpack : x.toModel.unpack with
  | zero s => exact ⟨s, rfl⟩
  | infinity s => rw [hunpack] at hx; cases hx
  | notANumber => rw [hunpack] at hx; cases hx
  | finite s m e hm =>
    rw [hunpack] at h
    cases s with
    | negative => exact absurd h amount_neg.ne
    | positive => exact absurd h amount_pos.ne'

/-- A word with a positive value has a positive sign. -/
theorem unpack_of_value_pos (h : 0 < value x) :
    ∃ m e hm, x.toModel.unpack = .finite .positive m e hm := by
  rw [value] at h
  cases hunpack : x.toModel.unpack with
  | zero s => rw [hunpack, amount_zero] at h; exact absurd h (lt_irrefl 0)
  | infinity s => rw [hunpack] at h; exact absurd h (lt_irrefl 0)
  | notANumber => rw [hunpack] at h; exact absurd h (lt_irrefl 0)
  | finite s m e hm =>
    rw [hunpack] at h
    cases s with
    | negative => exact absurd h amount_neg.not_gt
    | positive => exact ⟨m, e, hm, rfl⟩

theorem isFinite_zero : (0 : Float).isFinite = true := rfl

theorem value_zero : value 0 = 0 := rfl

/-- The number that a word holds is that of the number made from the word. -/
theorem value_ofBits (w : UInt64) : value (Float.ofBits w) = amount (unpacked w) :=
  congrArg amount (unpack_ofBits w)

theorem isFinite_ofBits (w : UInt64) : (Float.ofBits w).isFinite = (unpacked w).isFinite :=
  congrArg UnpackedFloat.isFinite (unpack_ofBits w)

/-! ## Negation -/

@[simp]
theorem factor_neg (s : Sign) : factor (-s) = -factor s := by
  cases s
  · exact (neg_neg 1).symm
  · rfl

theorem amount_neg_eq (u : UnpackedFloat) : amount u.neg = -amount u := by
  cases u <;> simp [UnpackedFloat.neg, amount]

theorem unpack_neg (hx : x.isFinite = true) : (-x).toModel.unpack = x.toModel.unpack.neg := by
  obtain ⟨hcanonical, hrange⟩ := canonical_unpack hx
  refine unpack_pack ?_ ?_
  · cases hu : x.toModel.unpack <;> simp_all [UnpackedFloat.neg, Canonical]
  · cases hu : x.toModel.unpack <;> simp_all [UnpackedFloat.neg, InRange]

theorem isFinite_neg (hx : x.isFinite = true) : (-x).isFinite = true := by
  change (-x).toModel.unpack.isFinite = true
  have hfinite : x.toModel.unpack.isFinite = true := hx
  rw [unpack_neg hx]
  cases hu : x.toModel.unpack <;> simp_all [UnpackedFloat.neg, UnpackedFloat.isFinite]

theorem value_neg (hx : x.isFinite = true) : value (-x) = -value x := by
  rw [value, unpack_neg hx, amount_neg_eq, value]

end PatchDynamics.Rounding
