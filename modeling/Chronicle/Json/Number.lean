import Chronicle.Json.Basic

namespace Chronicle

/-!
# JSON numbers

* `Number.Literal` — the sign and the digits of a numeral.
* `Number.Literal.scan` — takes a literal off a text.
* `Number.Literal.value?` — a whole number of at most 64 bits keeps its value; any other literal is
  a double, computed in doubles as the leading digits times or over a power of ten.

A literal too large for a double has no value.
-/

namespace Json.Number

/-- The parts of a numeral: `-12.50e+3` has the digits `12` and `50` and the exponent 3. -/
structure Literal where
  /-- A minus sign stands in front. -/
  negative : Bool
  /-- The digits before the point. -/
  whole : List Char
  /-- The digits after the point, if there is a point. -/
  fraction : Option (List Char)
  /-- The sign and the digits of the exponent, if there is one. -/
  exponent : Option (Bool × List Char)

/-! ### Scanning -/

/-- The decimal digits at the front of a text, and the rest. -/
def digits (cs : List Char) : List Char × List Char := cs.span Char.isDigit

/-- At least one digit; `atEnd` is what is wrong if the text ends instead. -/
def digitsRequired (atEnd : Fault) (cs : List Char) : Except Fault (List Char × List Char) :=
  match digits cs with
  | ([], []) => .error atEnd
  | ([], _ :: _) => .error .malformed
  | (ds, rest) => .ok (ds, rest)

/-- The exponent part of a numeral, if the text goes on with one. -/
def scanExponent (atEnd : Fault) (cs : List Char) :
    Except Fault (Option (Bool × List Char) × List Char) :=
  let signed : List Char → Bool × List Char
    | '+' :: rest => (false, rest)
    | '-' :: rest => (true, rest)
    | rest => (false, rest)
  match cs with
  | 'e' :: rest | 'E' :: rest => do
    let (negative, rest) := signed rest
    let (ds, rest) ← digitsRequired atEnd rest
    return (some (negative, ds), rest)
  | rest => .ok (none, rest)

/-- The fraction part of a numeral, if the text goes on with one. -/
def scanFraction (atEnd : Fault) (cs : List Char) :
    Except Fault (Option (List Char) × List Char) :=
  match cs with
  | '.' :: rest => do
    let (ds, rest) ← digitsRequired atEnd rest
    return (some ds, rest)
  | rest => .ok (none, rest)

/-- Take a numeral off a text that starts with its sign or its first digit. A zero is not followed
by another digit. -/
def Literal.scan (atEnd : Fault) (cs : List Char) : Except Fault (Literal × List Char) := do
  let (negative, cs) := match cs with
    | '-' :: rest => (true, rest)
    | rest => (false, rest)
  let (whole, cs) ← digitsRequired atEnd cs
  if whole.head? = some '0' ∧ whole.length ≠ 1 then throw .malformed
  let (fraction, cs) ← scanFraction atEnd cs
  let (exponent, cs) ← scanExponent atEnd cs
  return (⟨negative, whole, fraction, exponent⟩, cs)

/-! ### Values -/

/-- The greatest significand that is kept exactly. -/
def greatestSignificand : Nat := 18446744073709551615

/-- Append digits to a significand while it stays within 64 bits; the digits left over. -/
def accumulate : Nat → List Char → Nat × List Char
  | n, [] => (n, [])
  | n, c :: cs =>
    let m := 10 * n + (c.toNat - 48)
    if m ≤ greatestSignificand then accumulate m cs else (n, c :: cs)

/-- A power of ten as a double. -/
def powerOfTen (k : Nat) : Float := Float.ofScientific 1 false k

/-- A double over a power of ten, in steps that a double can hold. -/
def overPowerOfTen (x : Float) (k : Nat) : Float :=
  if k ≤ 308 then x / powerOfTen k
  else if x == 0 then x
  else overPowerOfTen (x / powerOfTen 308) (k - 308)
termination_by k

/-- A double times a power of ten, if the product is finite. -/
def timesPowerOfTen? (x : Float) (k : Nat) : Option Float :=
  if k ≤ 308 then
    let y := x * powerOfTen k
    if y.isInf then none else some y
  else if x == 0 then some x
  else none

/-- A significand times a power of ten. -/
def scaled? (significand : Nat) (exponent : Int) : Option Float :=
  let x := Float.ofNat significand
  if 0 ≤ exponent then timesPowerOfTen? x exponent.toNat
  else some (overPowerOfTen x (-exponent).toNat)

/-- Exponents beyond this are not computed with. -/
def greatestExponent : Nat := 2147483647

/-- The size of a literal as a double. -/
def Literal.magnitude? (l : Literal) : Option Float :=
  let (n, dropped) := accumulate 0 l.whole
  let fraction := l.fraction.getD []
  let (n, unread) := accumulate n fraction
  let shift : Int := dropped.length - (fraction.length - unread.length : Nat)
  match l.exponent with
  | none => scaled? n shift
  | some (negative, ds) =>
    let e := Nat.ofDigitChars 10 ds 0
    if e ≤ greatestExponent then scaled? n (if negative then shift - e else shift + e)
    else if n = 0 ∨ negative then some 0
    else none

/-- The value of a literal; `none` if it is too large. -/
def Literal.value? (l : Literal) : Option Json :=
  let n := Nat.ofDigitChars 10 l.whole 0
  if l.fraction.isNone ∧ l.exponent.isNone ∧ n ≤ greatestSignificand
      ∧ (l.negative → 0 < n ∧ n ≤ 9223372036854775808) then
    some (.int (if l.negative then -n else n))
  else
    l.magnitude?.map fun x => .float (if l.negative then -x else x)

end Json.Number

end Chronicle
