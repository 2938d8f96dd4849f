import Chronicle.Snapshot.Cache
import Mathlib

namespace Chronicle

/-!
# The order of doubles

What a snapshot is worth is a double, and trims put doubles in their total order, which is that of
their bits. Here this order is compared with the order of numbers.

* `Double.steps` — how many doubles away from zero a number is. Its bits tell it
  (`Double.unpack_spec`), and numbers compare like their steps (`Double.compare_eq`).
* `Double.IsNumber` — the doubles that are numbers.
* `Double.le_of_floatRank_le` — numbers in the total order of doubles are in the order of numbers.
-/

namespace Double

open Float.Model Float.Model.UnpackedFloat

/-! ### Bits -/

theorem toNat_unpackMantissa (b : BitVec 64) :
    (@unpackMantissa .binary64 b).toNat = b.toNat % 2 ^ 52 := by
  rw [unpackMantissa_def, BitVec.extractLsb'_toNat, Nat.shiftRight_zero]

theorem toNat_unpackExponent (b : BitVec 64) :
    (@unpackExponent .binary64 b).toNat = b.toNat / 2 ^ 52 % 2 ^ 11 := by
  rw [unpackExponent_def, BitVec.extractLsb'_toNat, Nat.shiftRight_eq_div_pow]

theorem unpackSign_eq (b : BitVec 64) : Sign.ofBitVec (@unpackSign .binary64 b)
    = if b.toNat < 2 ^ 63 then .positive else .negative := by
  have hlt := b.isLt
  have hbit : (@unpackSign .binary64 b).toNat = b.toNat / 2 ^ 63 % 2 ^ 1 := by
    rw [unpackSign_def, BitVec.extractLsb'_toNat, Nat.shiftRight_eq_div_pow]
    rfl
  have hzero : @unpackSign .binary64 b = 0#1 ↔ b.toNat < 2 ^ 63 := by
    rw [← BitVec.toNat_inj, hbit, BitVec.toNat_ofNat]
    omega
  simp only [Sign.ofBitVec, hzero]

theorem exponentBias_eq : Format.exponentBias .binary64 = 1023 := by decide

/-- How many doubles away from zero a number is, below zero with a minus. -/
def steps : UnpackedFloat → Int
  | .infinity s => s.apply (2047 * 2 ^ 52)
  | .notANumber => 0
  | .zero _ => 0
  | .finite s m e _ => s.apply ((e + 1074) * 2 ^ 52 + m)

/-- How numbers are unpacked: with as much mantissa as there is room for, if the exponent is not the
least one. -/
def Canonical : UnpackedFloat → Prop
  | .notANumber => False
  | .finite _ m e _ => m < 2 ^ 53 ∧ -1074 ≤ e ∧ e ≤ 971 ∧ (2 ^ 52 ≤ m ∨ e = -1074)
  | _ => True

/-- Bits are unpacked as a number, which is as many steps away from zero as they tell, or as none.
-/
theorem unpack_spec (b : BitVec 64) : UnpackedFloat.unpack .binary64 b = .notANumber ∨
    (Canonical (UnpackedFloat.unpack .binary64 b) ∧ steps (UnpackedFloat.unpack .binary64 b)
      = if b.toNat < 2 ^ 63 then (b.toNat : Int) else 2 ^ 63 - b.toNat) := by
  have hlt := b.isLt
  have hm := toNat_unpackMantissa b
  have he := toNat_unpackExponent b
  have hm_zero : @unpackMantissa .binary64 b = 0#_ ↔ b.toNat % 2 ^ 52 = 0 := by
    rw [← hm, ← BitVec.toNat_inj]
    rfl
  have he_zero : @unpackExponent .binary64 b = 0#_ ↔ b.toNat / 2 ^ 52 % 2 ^ 11 = 0 := by
    rw [← he, ← BitVec.toNat_inj]
    rfl
  have he_ones : @unpackExponent .binary64 b = -1#_ ↔ b.toNat / 2 ^ 52 % 2 ^ 11 = 2047 := by
    rw [← he, ← BitVec.toNat_inj]
    rfl
  unfold UnpackedFloat.unpack
  simp only [hm_zero, he_zero, he_ones, unpackSign_eq, exponentBias_eq]
  split
  · split
    · refine .inr ⟨trivial, ?_⟩
      simp only [steps]
      split <;> simp only [Sign.apply] <;> omega
    · exact .inl rfl
  · refine .inr ?_
    split
    · split
      · refine ⟨trivial, ?_⟩
        simp only [steps]
        split <;> omega
      · constructor
        · simp only [Canonical, hm, he]
          omega
        · simp only [steps, hm, he]
          split <;> simp only [Sign.apply] <;> omega
    · -- The leading bit of the mantissa is not stored.
      have hlead : (1#1 ++ @unpackMantissa .binary64 b).toNat = 2 ^ 52 + b.toNat % 2 ^ 52 := by
        have hlow : b.toNat % 2 ^ 52 < 2 ^ 52 := Nat.mod_lt _ (by decide)
        rw [BitVec.toNat_append, hm, ← Nat.shiftLeft_add_eq_or_of_lt hlow]
        rfl
      constructor
      · simp only [Canonical, hlead, he]
        omega
      · simp only [steps, hlead, he]
        split <;> simp only [Sign.apply] <;> omega

/-! ### The order of numbers -/

theorem compare_neg_neg (a b : Int) : compare (-a) (-b) = compare b a := by
  simp only [Int.compare_eq_ite_lt, Int.neg_lt_neg_iff]

/-- Positive numbers compare by their exponents first, and then by their mantissas. -/
theorem compare_then_eq {s s' : Sign} {m m' : Nat} {e e' : Int} {hm : 0 < m} {hm' : 0 < m'}
    (h : Canonical (.finite s m e hm)) (h' : Canonical (.finite s' m' e' hm')) :
    (compare e e').then (compare m m')
      = compare ((e + 1074) * 2 ^ 52 + m : Int) ((e' + 1074) * 2 ^ 52 + m') := by
  obtain ⟨hlt, hmin, -, hfull⟩ := h
  obtain ⟨hlt', hmin', -, hfull'⟩ := h'
  rcases Int.lt_trichotomy e e' with hexponent | rfl | hexponent
  · rw [Int.compare_eq_lt.2 hexponent]
    exact (Int.compare_eq_lt.2 (by omega)).symm
  · rw [Int.compare_eq_eq.2 rfl]
    simp only [Ordering.then, Nat.compare_eq_ite_lt, Int.compare_eq_ite_lt, Int.add_lt_add_iff_left,
      Int.ofNat_lt]
  · rw [Int.compare_eq_gt.2 hexponent]
    exact (Int.compare_eq_gt.2 (by omega)).symm

theorem steps_finite_bounds {s : Sign} {m : Nat} {e : Int} {hm : 0 < m}
    (h : Canonical (.finite s m e hm)) :
    0 < (e + 1074) * 2 ^ 52 + m ∧ (e + 1074) * 2 ^ 52 + m < 2047 * 2 ^ 52 := by
  obtain ⟨hlt, hmin, hmax, -⟩ := h
  omega

/-- Numbers compare like their steps. -/
theorem compare_eq {u v : UnpackedFloat} (hu : Canonical u) (hv : Canonical v) :
    u.compare v = some (compare (steps u) (steps v)) := by
  have hlt : ∀ {a b : Int}, a < b → some .lt = some (compare a b) := fun h =>
    congrArg some (Int.compare_eq_lt.2 h).symm
  have hgt : ∀ {a b : Int}, b < a → some .gt = some (compare a b) := fun h =>
    congrArg some (Int.compare_eq_gt.2 h).symm
  cases u with
  | notANumber => exact hu.elim
  | infinity s =>
    cases v with
    | notANumber => exact hv.elim
    | infinity s' => cases s <;> cases s' <;> rfl
    | zero s' => cases s <;> rfl
    | finite s' m' e' hm' =>
      obtain ⟨hpos', hbelow'⟩ := steps_finite_bounds hv
      cases s with
      | positive => exact hgt (by cases s' <;> simp only [steps, Sign.apply] <;> omega)
      | negative => exact hlt (by cases s' <;> simp only [steps, Sign.apply] <;> omega)
  | zero s =>
    cases v with
    | notANumber => exact hv.elim
    | infinity s' => cases s' <;> rfl
    | zero s' => rfl
    | finite s' m' e' hm' =>
      obtain ⟨hpos', -⟩ := steps_finite_bounds hv
      cases s' with
      | positive => exact hlt hpos'
      | negative => exact hgt (Int.neg_neg_of_pos hpos')
  | finite s m e hm =>
    obtain ⟨hpos, hbelow⟩ := steps_finite_bounds hu
    cases v with
    | notANumber => exact hv.elim
    | infinity s' =>
      cases s' with
      | positive => cases s <;> exact hlt (by simp only [steps, Sign.apply]; omega)
      | negative => cases s <;> exact hgt (by simp only [steps, Sign.apply]; omega)
    | zero s' =>
      cases s with
      | positive => exact hgt hpos
      | negative => exact hlt (Int.neg_neg_of_pos hpos)
    | finite s' m' e' hm' =>
      obtain ⟨hpos', -⟩ := steps_finite_bounds hv
      cases s with
      | positive =>
        cases s' with
        | positive => exact congrArg some (compare_then_eq hu hv)
        | negative => exact hgt (by simp only [steps, Sign.apply]; omega)
      | negative =>
        cases s' with
        | positive => exact hlt (by simp only [steps, Sign.apply]; omega)
        | negative =>
          simp only [UnpackedFloat.compare, steps, Sign.apply]
          rw [compare_neg_neg, compare_then_eq hu hv, Int.compare_swap]

/-- A double, unpacked. -/
def unpacked (x : Float) : UnpackedFloat := x.toModel.unpack

/-- A double that is a number. -/
def IsNumber (x : Float) : Prop := unpacked x ≠ .notANumber

theorem IsNumber.canonical {x : Float} (hx : IsNumber x) : Canonical (unpacked x) :=
  ((unpack_spec _).resolve_left hx).1

theorem IsNumber.steps_eq {x : Float} (hx : IsNumber x) : steps (unpacked x)
    = if x.toBits.toNat < 2 ^ 63 then (x.toBits.toNat : Int) else 2 ^ 63 - x.toBits.toNat :=
  ((unpack_spec _).resolve_left hx).2

theorem lt_iff_steps {x y : Float} (hx : IsNumber x) (hy : IsNumber y) :
    x < y ↔ steps (unpacked x) < steps (unpacked y) := by
  have hlt : x < y ↔ ((unpacked x).compare (unpacked y) == some .lt) = true := by
    show decide (x.toModel < y.toModel) = true ↔ _
    rw [decide_eq_true_iff]
    rfl
  rw [hlt, compare_eq hx.canonical hy.canonical, beq_iff_eq, Option.some.injEq, Int.compare_eq_lt]

theorem le_iff_steps {x y : Float} (hx : IsNumber x) (hy : IsNumber y) :
    x ≤ y ↔ steps (unpacked x) ≤ steps (unpacked y) := by
  have hle : x ≤ y ↔ ((unpacked x).compare (unpacked y)).any (·.isLE) = true := by
    show decide (x.toModel ≤ y.toModel) = true ↔ _
    rw [decide_eq_true_iff]
    rfl
  rw [hle, compare_eq hx.canonical hy.canonical]
  exact Int.isLE_compare

/-- Only numbers are less than others. -/
theorem isNumber_of_lt {x y : Float} (h : x < y) : IsNumber y := by
  intro hy
  have hlt : ((unpacked x).compare (unpacked y) == some .lt) = true := of_decide_eq_true h
  rw [hy] at hlt
  generalize unpacked x = u at hlt
  cases u <;> simp [UnpackedFloat.compare] at hlt

/-- In the total order of doubles, the steps never go down. -/
theorem steps_le_of_floatRank_le {x y : Float} (hx : IsNumber x) (hy : IsNumber y)
    (h : floatRank x ≤ floatRank y) : steps (unpacked x) ≤ steps (unpacked y) := by
  rw [hx.steps_eq, hy.steps_eq]
  unfold floatRank at h
  simp only at h
  split at h <;> split at h <;> split <;> split <;> omega

/-- Numbers in the total order of doubles are in the order of numbers. -/
theorem le_of_floatRank_le {x y : Float} (hx : IsNumber x) (hy : IsNumber y)
    (h : floatRank x ≤ floatRank y) : x ≤ y :=
  (le_iff_steps hx hy).2 (steps_le_of_floatRank_le hx hy h)

end Double

end Chronicle
