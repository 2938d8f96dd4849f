import Chronicle.Proofs.Double.Order
import Chronicle.Text.Numeral

namespace Chronicle

/-!
# Which operations on doubles give numbers

* `Double.Bounded` — a finite number whose exponent has a bound. Rounding moves the bound by what
  the mantissa is long (`Double.bounded_roundWithAccuracy`).
* `Double.bounded_ofInt`, `Double.bounded_ofNat`, `Double.bounded_mul` — integers of 64 bits, and
  the products of two of them, are finite.
* `Double.isNumber_div` — the quotient by a number that is not zero is a number, unless both are
  infinite.
-/

namespace Double

open Float.Model Float.Model.UnpackedFloat

theorem minExponent_eq : Format.minExponent .binary64 = -1074 := by decide

theorem mantissaBits_eq : Format.mantissaBits .binary64 = 53 := rfl

/-- A finite number with an exponent up to a bound. -/
def Bounded (bound : Int) : UnpackedFloat → Prop
  | .zero _ => True
  | .finite _ _ e _ => e ≤ bound
  | _ => False

theorem Bounded.zero_or_finite {bound : Int} {u : UnpackedFloat} (h : Bounded bound u) :
    (∃ s, u = .zero s) ∨ ∃ s m e hm, u = .finite s m e hm ∧ e ≤ bound := by
  cases u with
  | notANumber => exact h.elim
  | infinity s => exact h.elim
  | zero s => exact .inl ⟨s, rfl⟩
  | finite s m e hm => exact .inr ⟨s, m, e, hm, rfl, h⟩

theorem Bounded.mono {bound bound' : Int} {u : UnpackedFloat} (h : Bounded bound u)
    (hle : bound ≤ bound') : Bounded bound' u := by
  rcases h.zero_or_finite with ⟨s, rfl⟩ | ⟨s, m, e, hm, rfl, he⟩
  · trivial
  · exact Int.le_trans he hle

theorem Bounded.ne_notANumber {bound : Int} {u : UnpackedFloat} (h : Bounded bound u) :
    u ≠ .notANumber := by
  rintro rfl
  exact h

theorem Bounded.ne_infinity {bound : Int} {u : UnpackedFloat} (h : Bounded bound u) (s : Sign) :
    u ≠ .infinity s := by
  rintro rfl
  exact h

/-! ### Packing -/

/-- What is packed, unpacked again. -/
def repack (u : UnpackedFloat) : UnpackedFloat :=
  UnpackedFloat.unpack .binary64 (UnpackedFloat.pack .binary64 u)

theorem repack_zero (s : Sign) : repack (.zero s) = .zero s := unpack_packedZero

theorem repack_infinity (s : Sign) : repack (.infinity s) = .infinity s := by
  cases s <;> rfl

/-- Bits whose exponent is not the greatest one are those of a finite number. -/
theorem bounded_unpack_packComponents (s : Sign) {x : BitVec 11} (y : BitVec 52) {bound : Int}
    (hx : x ≠ -1#_) (hmin : -1074 ≤ bound) (hle : (x.toNat : Int) - 1075 ≤ bound) :
    Bounded bound (UnpackedFloat.unpack .binary64 (packComponents .binary64 s x y)) := by
  unfold UnpackedFloat.unpack
  simp only [unpackExponent_packComponents, unpackMantissa_packComponents, exponentBias_eq,
    if_neg hx]
  split
  · rename_i hzero
    subst hzero
    split
    · trivial
    · exact hmin
  · exact hle

/-- A finite number stays within its bound, if there is room for the bound. -/
theorem bounded_repack {bound : Int} {u : UnpackedFloat} (hu : Bounded bound u)
    (hmin : -1074 ≤ bound) (hmax : bound ≤ 971) : Bounded bound (repack u) := by
  rcases hu.zero_or_finite with ⟨s, rfl⟩ | ⟨s, m, e, hm, rfl, he⟩
  · rw [repack_zero]
    trivial
  · have hbiased : (e + 1023 + 52).toNat < 2047 := by omega
    unfold repack UnpackedFloat.pack
    simp only [exponentBias_eq]
    rw [if_neg (by omega)]
    split
    · refine bounded_unpack_packComponents s _ ?_ hmin ?_
      · rw [Ne, ← BitVec.toNat_inj]
        simp
        omega
      · simp
        omega
    · exact bounded_unpack_packComponents s _ (by decide) hmin (by simp; omega)

/-- A number is packed as a number, though it may become infinite. -/
theorem repack_ne_notANumber {u : UnpackedFloat} (hu : u ≠ .notANumber) :
    repack u ≠ .notANumber := by
  cases u with
  | notANumber => exact absurd rfl hu
  | infinity s => simp [repack_infinity]
  | zero s => simp [repack_zero]
  | finite s m e hm =>
    by_cases hmax : e ≤ 971
    · have hbounded : Bounded (max e (-1074)) (.finite s m e hm) := Int.le_max_left _ _
      exact (bounded_repack hbounded (by omega) (by omega)).ne_notANumber
    · have hinfinite : repack (.finite s m e hm) = repack (.infinity s) := by
        unfold repack UnpackedFloat.pack
        simp only [exponentBias_eq]
        rw [if_pos (by omega)]
      simp [hinfinite, repack_infinity]

/-! ### Rounding -/

theorem roundedMantissa_le (em : ExtendedMantissa) : em.roundedMantissa ≤ em.mantissa + 1 := by
  unfold ExtendedMantissa.roundedMantissa
  cases em.accuracy with
  | exact => exact Nat.le_succ _
  | inexact o => cases o <;> simp only [Accuracy.roundToNearestEven] <;> omega

theorem mantissa_shiftRight_le (em : ExtendedMantissa) (n : Nat) :
    (em >>> n).mantissa ≤ em.mantissa := by
  induction n with
  | zero => exact Nat.le_refl _
  | succ n ih => exact Nat.le_trans (Nat.div_le_self _ 2) ih

theorem mantissa_ofMantissaAndAccuracy (m : Nat) (acc : Accuracy) :
    (ExtendedMantissa.ofMantissaAndAccuracy m acc).mantissa = m := by
  cases acc with
  | exact => rfl
  | inexact o => cases o <;> rfl

theorem log2_le_of_lt {m k : Nat} (hm : m < 2 ^ (k + 1)) : m.log2 ≤ k := by
  by_cases hzero : m = 0
  · simp [hzero]
  · exact Nat.le_of_lt_succ ((Nat.log2_lt hzero).2 hm)

/-- A shift makes the mantissa no longer, and the exponent greater by no more than its length. -/
theorem shiftToTargetExponent_le {m k : Nat} {e bound : Int} (acc : Accuracy)
    (hm : m < 2 ^ (k + 1)) (he : e ≤ bound) (hmin : -1074 ≤ bound) :
    (shiftToTargetExponent .binary64 m e acc).1.mantissa ≤ m ∧
      (shiftToTargetExponent .binary64 m e acc).2 ≤ bound + k := by
  unfold shiftToTargetExponent shiftToExponent
  constructor
  · exact Nat.le_trans (mantissa_shiftRight_le _ _)
      (Nat.le_of_eq (mantissa_ofMantissaAndAccuracy m acc))
  · have hlog := log2_le_of_lt hm
    simp only [Format.targetExponent, totalExponent, minExponent_eq, mantissaBits_eq]
    omega

/-- Rounding shifts twice, since it may make the mantissa longer by one. -/
theorem bounded_roundWithAccuracy (s : Sign) {m k : Nat} {e bound : Int} (acc : Accuracy)
    (hm : m < 2 ^ (k + 1)) (he : e ≤ bound) (hmin : -1074 ≤ bound) :
    Bounded (bound + 2 * k + 1) (roundWithAccuracy .binary64 s m e acc) := by
  obtain ⟨hmantissa, hexponent⟩ := shiftToTargetExponent_le acc hm he hmin
  unfold roundWithAccuracy
  simp only
  generalize shiftToTargetExponent .binary64 m e acc = first at hmantissa hexponent ⊢
  have hrounded : first.1.roundedMantissa < 2 ^ (k + 1 + 1) := by
    have hle := roundedMantissa_le first.1
    rw [Nat.pow_succ]
    omega
  have hsecond := (shiftToTargetExponent_le .exact hrounded hexponent (by omega)).2
  split
  · trivial
  · simp only [Bounded]
    omega

theorem roundWithAccuracy_ne_notANumber (s : Sign) (m : Nat) (e : Int) (acc : Accuracy) :
    roundWithAccuracy .binary64 s m e acc ≠ .notANumber := by
  unfold roundWithAccuracy
  simp only
  split <;> simp

/-- A mantissa of 64 bits is rounded to a finite number. -/
theorem bounded_round (s : Sign) {m : Nat} (hm : m < 2 ^ 64) :
    Bounded 127 (UnpackedFloat.round .binary64 s m 0) := by
  have hlog : m.log2 ≤ 63 := log2_le_of_lt hm
  unfold UnpackedFloat.round decreaseExponent
  simp only [Format.targetExponent, totalExponent, minExponent_eq, mantissaBits_eq]
  -- A short mantissa is shifted until it has 53 bits, and a long one is not shifted.
  generalize hshift : (0 - max ((m.log2 : Int) + 1 + 0 - ((53 : Nat) : Int)) (-1074)).toNat = shift
  have hshifted : m <<< shift < 2 ^ (63 + 1) := by
    rw [Nat.shiftLeft_eq]
    calc m * 2 ^ shift
        < 2 ^ (m.log2 + 1) * 2 ^ shift :=
          Nat.mul_lt_mul_of_pos_right Nat.lt_log2_self (Nat.two_pow_pos _)
      _ = 2 ^ (m.log2 + 1 + shift) := (Nat.pow_add _ _ _).symm
      _ ≤ 2 ^ (63 + 1) := Nat.pow_le_pow_right (by decide) (by omega)
  have hexponent : (0 : Int) - shift ≤ 0 := by omega
  exact bounded_roundWithAccuracy s .exact hshifted hexponent (by decide)

/-! ### Products and quotients -/

theorem unpacked_mul (x y : Float) :
    unpacked (x * y) = repack (UnpackedFloat.mul .binary64 (unpacked x) (unpacked y)) := rfl

theorem unpacked_div (x y : Float) :
    unpacked (x / y) = repack (UnpackedFloat.div .binary64 (unpacked x) (unpacked y)) := rfl

/-- A product of finite numbers is finite, if there is room for its bound. -/
theorem bounded_mul {x y : Float} {bound bound' : Int} (hx : Bounded bound (unpacked x))
    (hy : Bounded bound' (unpacked y)) (hmin : -1074 ≤ bound + bound')
    (hmax : bound + bound' ≤ 760) : Bounded (bound + bound' + 211) (unpacked (x * y)) := by
  have hcanonical := IsNumber.canonical hx.ne_notANumber
  have hcanonical' := IsNumber.canonical hy.ne_notANumber
  rw [unpacked_mul]
  refine bounded_repack ?_ (by omega) (by omega)
  rcases hx.zero_or_finite with ⟨s, hx⟩ | ⟨s, m, e, hm, hx, he⟩
  · rcases hy.zero_or_finite with ⟨s', hy⟩ | ⟨s', m', e', hm', hy, he'⟩
    · rw [hx, hy]
      trivial
    · rw [hx, hy]
      trivial
  · rcases hy.zero_or_finite with ⟨s', hy⟩ | ⟨s', m', e', hm', hy, he'⟩
    · rw [hx, hy]
      trivial
    · rw [hx] at hcanonical ⊢
      rw [hy] at hcanonical' ⊢
      have hproduct : m * m' < 2 ^ (105 + 1) :=
        Nat.lt_of_lt_of_eq (Nat.mul_lt_mul_of_lt_of_lt hcanonical.1 hcanonical'.1) (by decide)
      have hexponent : e + e' ≤ bound + bound' := by omega
      exact (bounded_roundWithAccuracy (s * s') .exact hproduct hexponent hmin).mono (by omega)

/-- A finite number times zero is zero. -/
theorem unpacked_mul_zero {x y : Float} {bound : Int} {s' : Sign} (hx : Bounded bound (unpacked x))
    (hy : unpacked y = .zero s') : ∃ s, unpacked (x * y) = .zero s := by
  rw [unpacked_mul, hy]
  rcases hx.zero_or_finite with ⟨s, hx⟩ | ⟨s, m, e, hm, hx, -⟩
  · rw [hx]
    exact ⟨s * s', repack_zero _⟩
  · rw [hx]
    exact ⟨s * s', repack_zero _⟩

/-- A number that is not zero. -/
structure IsNonzero (x : Float) : Prop where
  /-- It is a number. -/
  isNumber : IsNumber x
  /-- It is not zero. -/
  ne_zero : ∀ s, unpacked x ≠ .zero s

/-- The quotient by a number that is not zero is a number, unless both are infinite. -/
theorem isNumber_div {x y : Float} (hx : IsNumber x) (hy : IsNonzero y)
    (hinfinite : ∀ s s', unpacked x = .infinity s → unpacked y ≠ .infinity s') :
    IsNumber (x / y) := by
  obtain ⟨hy, hzero⟩ := hy
  unfold IsNumber at hx hy ⊢
  rw [unpacked_div]
  refine repack_ne_notANumber ?_
  generalize unpacked x = u at hx hinfinite ⊢
  generalize unpacked y = v at hy hzero hinfinite ⊢
  cases v with
  | notANumber => exact absurd rfl hy
  | zero s' => exact absurd rfl (hzero s')
  | infinity s' =>
    cases u with
    | notANumber => exact absurd rfl hx
    | infinity s => exact absurd rfl (hinfinite s s' rfl)
    | zero s => simp [UnpackedFloat.div]
    | finite s m e hm => simp [UnpackedFloat.div]
  | finite s' m' e' hm' =>
    cases u with
    | notANumber => exact absurd rfl hx
    | infinity s => simp [UnpackedFloat.div]
    | zero s => simp [UnpackedFloat.div]
    | finite s m e hm => exact roundWithAccuracy_ne_notANumber _ _ _ _

/-- Zero divided by a number that is not zero is zero. -/
theorem unpacked_zero_div {x y : Float} {s : Sign} (hx : unpacked x = .zero s)
    (hy : IsNonzero y) : ∃ s, unpacked (x / y) = .zero s := by
  obtain ⟨hy, hzero⟩ := hy
  unfold IsNumber at hy
  rw [unpacked_div, hx]
  generalize unpacked y = v at hy hzero ⊢
  cases v with
  | notANumber => exact absurd rfl hy
  | zero s' => exact absurd rfl (hzero s')
  | infinity s' => exact ⟨s / s', repack_zero _⟩
  | finite s' m' e' hm' => exact ⟨s / s', repack_zero _⟩

/-! ### Integers -/

/-- From here on a natural number becomes a double in one step. -/
theorem unpacked_ofNat_of_le {n : Nat} (hn : 2 ^ 53 ≤ n) : unpacked (Float.ofNat n)
    = repack (roundWithAccuracy .binary64 .positive (n <<< 53 * 1) (-53 + 0) .exact) := by
  have hmodel : unpacked (Float.ofNat n) = repack (UnpackedFloat.ofScientific .binary64 n 0) := by
    change unpacked (Float.ofScientific n false 0) = _
    unfold Float.ofScientific
    rw [dif_neg (by omega)]
    rfl
  have hne : n ≠ 0 := by omega
  have hlarge : ¬ (0 : Int) < -(2 ^ 11 + n.log2) := by omega
  rw [hmodel, UnpackedFloat.ofScientific, dif_neg hne, if_neg (by decide), if_neg hlarge,
    if_pos (by decide)]
  rfl

/-- Below, it goes by way of a word, and is multiplied by one. -/
theorem unpacked_ofNat_of_lt {n : Nat} (hn : n < 2 ^ 53) : unpacked (Float.ofNat n)
    = unpacked (n.toUInt64.toFloat * Float.exactlyRepresentablePowersOfTen[0]) := by
  change unpacked (Float.ofScientific n false 0) = _
  unfold Float.ofScientific
  rw [dif_pos ⟨hn, by decide⟩]
  rfl

theorem bounded_toFloat (n : UInt64) : Bounded 127 (unpacked n.toFloat) := by
  have hlt := n.toNat_lt
  refine bounded_repack (u := UnpackedFloat.ofUInt64 .binary64 n) ?_ (by decide) (by decide)
  unfold UnpackedFloat.ofUInt64 UnpackedFloat.ofNat UnpackedFloat.ofInt UnpackedFloat.normalize
  split
  · exact bounded_round _ (by omega)
  · trivial
  · exact bounded_round _ (by omega)

theorem bounded_ofNat {n : Nat} (hn : n < 2 ^ 64) : Bounded 286 (unpacked (Float.ofNat n)) := by
  rcases Nat.lt_or_ge n (2 ^ 53) with hlt | hle
  · have hone : Bounded (-52) (unpacked Float.exactlyRepresentablePowersOfTen[0]) :=
      Int.le_refl (-52)
    rw [unpacked_ofNat_of_lt hlt]
    exact bounded_mul (bounded_toFloat _) hone (by decide) (by decide)
  · have hshift : n <<< 53 * 1 < 2 ^ (116 + 1) := by
      rw [Nat.shiftLeft_eq]
      omega
    rw [unpacked_ofNat_of_le hle]
    refine bounded_repack ?_ (by decide) (by decide)
    generalize n <<< 53 * 1 = m at hshift ⊢
    have hexponent : (-53 + 0 : Int) ≤ -53 := by decide
    exact (bounded_roundWithAccuracy .positive .exact hshift hexponent (by decide)).mono (by decide)

theorem isNumber_ofNat (n : Nat) : IsNumber (Float.ofNat n) := by
  rcases Nat.lt_or_ge n (2 ^ 53) with hlt | hle
  · exact (bounded_ofNat (by omega)).ne_notANumber
  · unfold IsNumber
    rw [unpacked_ofNat_of_le hle]
    exact repack_ne_notANumber (roundWithAccuracy_ne_notANumber _ _ _ _)

theorem unpacked_neg (x : Float) : unpacked x.neg = repack (unpacked x).neg := rfl

/-- An integer of 64 bits becomes a finite number. -/
theorem bounded_ofInt {n : Int} (hn : Word64.Fits n) : Bounded 286 (unpacked (Float.ofInt n)) := by
  unfold Word64.Fits Word64.least Word64.greatest at hn
  cases n with
  | ofNat n =>
    rw [Int.ofNat_eq_natCast] at hn
    exact bounded_ofNat (by omega)
  | negSucc n =>
    have hpos : Bounded 286 (unpacked (Float.ofNat (n + 1))) := bounded_ofNat (by omega)
    rw [Float.ofInt, unpacked_neg]
    refine bounded_repack ?_ (by decide) (by decide)
    generalize unpacked (Float.ofNat n.succ) = u at hpos ⊢
    cases u <;> exact hpos

/-- Every integer becomes a number, if maybe an infinite one. -/
theorem isNumber_ofInt (n : Int) : IsNumber (Float.ofInt n) := by
  cases n with
  | ofNat n => exact isNumber_ofNat n
  | negSucc n =>
    have hpos : unpacked (Float.ofNat n.succ) ≠ .notANumber := isNumber_ofNat (n + 1)
    unfold IsNumber
    rw [Float.ofInt, unpacked_neg]
    refine repack_ne_notANumber ?_
    generalize unpacked (Float.ofNat n.succ) = u at hpos ⊢
    cases u <;> simp [UnpackedFloat.neg] at hpos ⊢

end Double

end Chronicle
