namespace Chronicle

/-!
# Shortest decimal digits of a double

* `Shortest.Binary` — a positive double as a whole number times a power of two.
* `Shortest.Binary.decimal` — the fewest digits that read back as the double, and of those the
  nearest to it.

A double stands for every number that rounds to it. Its neighbours on the grid of decimals with `n`
digits are tried for growing `n`; the comparison is done in whole numbers.
-/

namespace Shortest

/-- The number `m * 2 ^ q`, with the width of the gap below it. -/
structure Binary where
  /-- The significand. -/
  m : Nat
  /-- The exponent of two. -/
  q : Int
  /-- The gap below the number is half the gap above it. -/
  narrowBelow : Bool

/-- The positive number that the bits of a finite double hold; the sign is dropped. -/
def Binary.ofBits (bits : UInt64) : Binary :=
  let fraction : Nat := bits.toNat % 4503599627370496
  let exponent : Nat := bits.toNat / 4503599627370496 % 2048
  if exponent = 0 then ⟨fraction, -1074, false⟩
  else ⟨4503599627370496 + fraction, (exponent : Int) - 1075, fraction = 0 ∧ 1 < exponent⟩

/-- A decimal `digits * 10 ^ scale`. -/
structure Decimal where
  /-- The digits as one number. -/
  digits : Nat
  /-- The exponent of ten. -/
  scale : Int

/-- Both sides of a comparison of `c * 10 ^ s` with `b * 2 ^ t`, brought to whole numbers. -/
def sides (c : Nat) (s : Int) (b : Nat) (t : Int) : Nat × Nat :=
  (c * Nat.pow 10 s.toNat * Nat.pow 2 (-t).toNat, b * Nat.pow 2 t.toNat * Nat.pow 10 (-s).toNat)

/-- A decimal rounds to the double. Ends of the interval count if the significand is even. -/
def Binary.admits (x : Binary) (d : Decimal) : Bool :=
  let below := 4 * x.m - (if x.narrowBelow then 1 else 2)
  let above := 4 * x.m + 2
  let (c, lo) := sides d.digits d.scale below (x.q - 2)
  let (c', hi) := sides d.digits d.scale above (x.q - 2)
  if x.m % 2 = 0 then lo ≤ c && c' ≤ hi else lo < c && c' < hi

/-- The greatest `k` below `start + 1` with `10 ^ k` at most the number, searched downwards. -/
def Binary.magnitudeFrom (x : Binary) : Nat → Int → Int
  | 0, k => k
  | fuel + 1, k =>
    let (power, number) := sides 1 k x.m x.q
    if power ≤ number then k else x.magnitudeFrom fuel (k - 1)

/-- The exponent of the leading decimal digit. -/
def Binary.magnitude (x : Binary) : Int := x.magnitudeFrom 640 309

/-- The decimal with `n` digits next to the double, if one rounds to it. -/
def Binary.onGrid? (x : Binary) (n : Nat) : Option Decimal :=
  let s := x.magnitude - n + 1
  let (unit, number) := sides 1 s x.m x.q
  let down : Decimal := ⟨number / unit, s⟩
  let up : Decimal := ⟨number / unit + 1, s⟩
  let nearDown := 2 * (number % unit) ≤ unit
  match x.admits down, x.admits up with
  | true, true => some (if nearDown then down else up)
  | true, false => some down
  | false, true => some up
  | false, false => none

/-- Drop zeros at the end of a decimal. -/
def Decimal.trim : Nat → Decimal → Decimal
  | 0, d => d
  | fuel + 1, d => if d.digits % 10 = 0 then trim fuel ⟨d.digits / 10, d.scale + 1⟩ else d

/-- The shortest decimal that rounds to the double. -/
def Binary.decimal (x : Binary) : Decimal :=
  (((List.range 17).findSome? fun n => x.onGrid? (n + 1)).getD ⟨0, 0⟩).trim 20

/-- The digits of a finite positive double, and the exponent of the first of them. -/
def digits (bits : UInt64) : List Char × Int :=
  let d := (Binary.ofBits bits).decimal
  let ds := Nat.toDigits 10 d.digits
  (ds, d.scale + ds.length - 1)

end Shortest

end Chronicle
