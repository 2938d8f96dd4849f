import Chronicle.Data.Word

namespace Chronicle

/-!
# Decimal numerals of signed 64-bit words

* `Numeral.read?` — reads an optional sign and at least one decimal digit; the number has to fit.
* `Numeral.read?_toString` — the decimal text of a number that fits reads back as that number.
-/

namespace Numeral

/-! ### Reading -/

/-- The number that decimal digits write, if there is at least one digit and nothing else. -/
def readDigits? (cs : List Char) : Option Nat :=
  if cs ≠ [] ∧ cs.all Char.isDigit then some (Nat.ofDigitChars 10 cs 0) else none

/-- The number that an optional sign and decimal digits write. -/
def readSigned? : List Char → Option Int
  | '-' :: cs => (readDigits? cs).map fun n : Nat => -(n : Int)
  | '+' :: cs => (readDigits? cs).map fun n : Nat => (n : Int)
  | cs => (readDigits? cs).map fun n : Nat => (n : Int)

/-- The signed 64-bit number that a text writes. -/
def read? (s : String) : Option Int :=
  (readSigned? s.toList).filter fun n => Word64.Fits n

/-! ### Reading what was written -/

theorem readSigned?_minus (cs : List Char) :
    readSigned? ('-' :: cs) = (readDigits? cs).map fun n : Nat => -(n : Int) := rfl

theorem isDigit_digitChar {d : Nat} (h : d < 10) : d.digitChar.isDigit = true := by
  match d, h with
  | 0, _ | 1, _ | 2, _ | 3, _ | 4, _ | 5, _ | 6, _ | 7, _ | 8, _ | 9, _ => decide

theorem all_isDigit_toDigits (n : Nat) : (Nat.toDigits 10 n).all Char.isDigit = true := by
  induction n using Nat.strongRecOn with
  | ind n ih =>
    rw [Nat.toDigits_eq_if (by decide)]
    split
    · rename_i h
      simp [isDigit_digitChar h]
    · simp [ih (n / 10) (by omega), isDigit_digitChar (Nat.mod_lt n (by decide : 0 < 10))]

theorem readDigits?_toDigits (n : Nat) : readDigits? (Nat.toDigits 10 n) = some n := by
  simp only [readDigits?, ne_eq, Nat.toDigits_ne_nil, not_false_eq_true, all_isDigit_toDigits,
    and_self, if_true, Nat.ofDigitChars_ten_toDigits]

theorem readSigned?_digits {cs : List Char} (hne : cs ≠ []) (h : cs.all Char.isDigit = true) :
    readSigned? cs = (readDigits? cs).map fun n : Nat => (n : Int) := by
  cases cs with
  | nil => exact absurd rfl hne
  | cons c rest =>
    have hc : c.isDigit = true := by simp only [List.all_cons, Bool.and_eq_true] at h; exact h.1
    unfold readSigned?
    split
    · rename_i heq
      cases heq
      exact absurd hc (by decide)
    · rename_i heq
      cases heq
      exact absurd hc (by decide)
    · rfl

theorem readSigned?_repr (n : Int) : readSigned? n.repr.toList = some n := by
  rw [Int.repr_eq_if]
  split
  · rename_i h
    rw [Nat.repr_eq_ofList_toDigits, String.toList_ofList,
      readSigned?_digits Nat.toDigits_ne_nil (all_isDigit_toDigits _), readDigits?_toDigits]
    simp [Int.toNat_of_nonneg h]
  · rename_i h
    rw [Nat.repr_eq_ofList_toDigits, String.toList_append, String.toList_ofList,
      String.toList_ofList]
    rw [List.singleton_append, readSigned?_minus, readDigits?_toDigits, Option.map_some]
    congr 1
    omega

/-- The decimal text of a number that fits reads back as that number. -/
theorem read?_toString {n : Int} (h : Word64.Fits n) : read? (toString n) = some n := by
  rw [read?, Int.toString_eq_repr, readSigned?_repr]
  simp [h]

end Numeral

end Chronicle
