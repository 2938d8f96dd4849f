namespace Chronicle

/-!
# Words: numbers of a fixed width

* `Word64.Fits` — the signed 64-bit numbers, the integers between `Word64.least` and
  `Word64.greatest`.
* `Word64.wrap` — what arithmetic on such numbers makes of a result: what is too large goes on from the
  other end. `Word64.wrap_of_fits` says that it leaves words alone, `Word64.fits_wrap` that it always
  gives one.
* `Word64.next` — what counting up makes of a word; `Word64.next_eq_wrap` says that it wraps as well.
* `Word32.wrap`, `Word32.next` — the same for unsigned 32-bit numbers.

Numbers that are read and written are words. Where the library computes with them the result wraps, as
it does in a release build.
-/

/-! ### Signed 64-bit words -/

namespace Word64

/-- The least signed 64-bit number. -/
def least : Int := -9223372036854775808

/-- The greatest signed 64-bit number. -/
def greatest : Int := 9223372036854775807

/-- `n` is a signed 64-bit number. -/
def Fits (n : Int) : Prop := least ≤ n ∧ n ≤ greatest

instance (n : Int) : Decidable (Fits n) := inferInstanceAs (Decidable (_ ∧ _))

/-- A natural number that is not too large is a word. -/
theorem fits_natCast {n : Nat} (h : (n : Int) ≤ greatest) : Fits n := by
  refine ⟨?_, h⟩
  unfold least
  omega

/-- How many words there are. -/
def count : Nat := 18446744073709551616

/-- The signed 64-bit number that agrees with `n` modulo `count`. -/
def wrap (n : Int) : Int := (n - least) % count + least

theorem fits_wrap (n : Int) : Fits (wrap n) := by
  unfold Fits wrap count greatest least
  omega

@[simp] theorem wrap_of_fits {n : Int} (h : Fits n) : wrap n = n := by
  unfold Fits greatest least at h
  unfold wrap count least
  omega

/-- To wrap on the way does not change what comes out. -/
@[simp] theorem wrap_wrap_add (n m : Int) : wrap (wrap n + m) = wrap (n + m) := by
  unfold wrap count least
  omega

/-- Behind the greatest word comes the least. -/
theorem wrap_greatest_add_one : wrap (greatest + 1) = least := rfl

/-- A word that is counted up and is not negative then has not come round. -/
theorem wrap_add_one_of_nonneg {n : Int} (hfits : Fits n) (h : 0 ≤ wrap (n + 1)) :
    wrap (n + 1) = n + 1 := by
  unfold Fits wrap count greatest least at *
  omega

/-- The word behind `n`. Behind the greatest word comes the least. -/
def next (n : Int) : Int := if n = greatest then least else n + 1

@[simp] theorem next_greatest : next greatest = least := rfl

theorem next_of_ne {n : Int} (h : n ≠ greatest) : next n = n + 1 := if_neg h

/-- Of a word, it is what is left of the number behind it. -/
theorem next_eq_wrap {n : Int} (h : Fits n) : next n = wrap (n + 1) := by
  unfold next
  split
  · rename_i hgreatest
    rw [hgreatest, wrap_greatest_add_one]
  · rename_i hne
    refine (wrap_of_fits ?_).symm
    unfold Fits at h ⊢
    omega

end Word64

/-! ### Unsigned 32-bit words -/

namespace Word32

/-- The number of unsigned 32-bit numbers. -/
def count : Nat := 4294967296

/-- The unsigned 32-bit number that agrees with `n` modulo `count`. -/
def wrap (n : Nat) : Nat := n % count

theorem wrap_lt (n : Nat) : wrap n < count := Nat.mod_lt n (by decide)

theorem wrap_of_lt {n : Nat} (h : n < count) : wrap n = n := Nat.mod_eq_of_lt h

/-- The unsigned 32-bit number behind `n`. -/
def next (n : Nat) : Nat := wrap (n + 1)

@[simp] theorem next_wrap (n : Nat) : next (wrap n) = wrap (n + 1) := by
  unfold next wrap
  exact Nat.mod_add_mod n count 1

end Word32

end Chronicle
