namespace Chronicle

/-!
# Universally unique identifiers

* `Uuid` — 128 bits.
* `Uuid.text` — 32 lower-case hexadecimal digits in groups of 8, 4, 4, 4 and 12.
* `Uuid.read?` — accepts that form, bare, in braces or after `urn:uuid:`, and the 32 digits without
  hyphens, all letters in either case.
* `Uuid.read?_text` — the written form reads back.
-/

/-- An identifier of 128 bits. -/
structure Uuid where
  /-- The bits, as one number. -/
  bits : BitVec 128
deriving DecidableEq

namespace Uuid

/-- The identifier whose bits are all zero. -/
def nil : Uuid := ⟨0⟩

instance : Inhabited Uuid := ⟨nil⟩

/-! ### Hexadecimal digits -/

/-- The last `k` hexadecimal digits of `n`, most significant first. -/
def hexDigits : Nat → Nat → List Char
  | 0, _ => []
  | k + 1, n => hexDigits k (n / 16) ++ [Nat.digitChar (n % 16)]

/-- The value of a hexadecimal digit of either case. -/
def hexValue? (c : Char) : Option Nat :=
  if '0' ≤ c ∧ c ≤ '9' then some (c.toNat - 48)
  else if 'a' ≤ c ∧ c ≤ 'f' then some (c.toNat - 87)
  else if 'A' ≤ c ∧ c ≤ 'F' then some (c.toNat - 55)
  else none

/-- The number that hexadecimal digits write after a number already read. -/
def readHexFrom? : Nat → List Char → Option Nat
  | n, [] => some n
  | n, c :: cs =>
    match hexValue? c with
    | some d => readHexFrom? (16 * n + d) cs
    | none => none

@[simp] theorem length_hexDigits (k n : Nat) : (hexDigits k n).length = k := by
  induction k generalizing n with
  | zero => rfl
  | succ k ih => simp [hexDigits, ih]

theorem hexValue?_digitChar {d : Nat} (h : d < 16) : hexValue? d.digitChar = some d :=
  (by decide : ∀ e : Fin 16, hexValue? (Nat.digitChar e) = some e.val) ⟨d, h⟩

theorem readHexFrom?_append (n : Nat) (cs ds : List Char) :
    readHexFrom? n (cs ++ ds) = (readHexFrom? n cs).bind fun m => readHexFrom? m ds := by
  induction cs generalizing n with
  | nil => rfl
  | cons c cs ih =>
    simp only [List.cons_append, readHexFrom?]
    cases hexValue? c with
    | none => rfl
    | some d => exact ih _

theorem readHexFrom?_hexDigits (k n m : Nat) :
    readHexFrom? m (hexDigits k n) = some (Nat.pow 16 k * m + n % Nat.pow 16 k) := by
  induction k generalizing n m with
  | zero =>
    have hone : Nat.pow 16 0 = 1 := rfl
    simp only [hexDigits, readHexFrom?, hone, Nat.one_mul, Nat.mod_one, Nat.add_zero]
  | succ k ih =>
    rw [hexDigits, readHexFrom?_append, ih]
    simp only [Option.bind_some, readHexFrom?, Option.some.injEq,
      hexValue?_digitChar (Nat.mod_lt n (by decide : 0 < 16))]
    have hpow : Nat.pow 16 (k + 1) = 16 * Nat.pow 16 k := Nat.mul_comm _ _
    rw [hpow, Nat.mod_mul, Nat.mul_add, Nat.mul_assoc]
    omega

/-! ### Groups -/

/-- The lengths of the digit groups. -/
def layout : List Nat := [8, 4, 4, 4, 12]

/-- The sum of the lengths of some groups. -/
def total (ns : List Nat) : Nat := ns.foldr (· + ·) 0

/-- Put a hyphen after each group of digits but the last. -/
def hyphenate : List Nat → List Char → List Char
  | n :: n' :: ns, cs => cs.take n ++ '-' :: hyphenate (n' :: ns) (cs.drop n)
  | _, cs => cs

/-- Remove the hyphens between groups of the given lengths; `none` where they stand elsewhere. -/
def ungroup? : List Nat → List Char → Option (List Char)
  | [], cs => if cs = [] then some [] else none
  | [n], cs => if cs.length = n then some cs else none
  | n :: n' :: ns, cs =>
    match cs.drop n with
    | '-' :: rest => (ungroup? (n' :: ns) rest).map (cs.take n ++ ·)
    | _ => none

theorem ungroup?_hyphenate : ∀ (ns : List Nat) (cs : List Char), cs.length = total ns →
    ungroup? ns (hyphenate ns cs) = some cs
  | [], cs, h => by
    have : cs = [] := List.length_eq_zero_iff.1 h
    simp [this, hyphenate, ungroup?]
  | [n], cs, h => by
    have hn : cs.length = n := h
    simp [hyphenate, ungroup?, hn]
  | n :: n' :: ns, cs, h => by
    have hsum : cs.length = n + total (n' :: ns) := h
    have hle : n ≤ cs.length := by omega
    have hlen : (cs.take n).length = n := by simp [Nat.min_eq_left hle]
    have hdrop : (cs.take n ++ '-' :: hyphenate (n' :: ns) (cs.drop n)).drop n
        = '-' :: hyphenate (n' :: ns) (cs.drop n) := List.drop_left' hlen
    have htake : (cs.take n ++ '-' :: hyphenate (n' :: ns) (cs.drop n)).take n = cs.take n :=
      List.take_left' hlen
    have hrest : (cs.drop n).length = total (n' :: ns) := by
      simp only [List.length_drop]; omega
    simp only [hyphenate, ungroup?, hdrop, htake, ungroup?_hyphenate (n' :: ns) _ hrest,
      Option.map_some, List.take_append_drop]

/-! ### Writing and reading -/

/-- The identifier in lower case with hyphens. -/
def text (u : Uuid) : String :=
  String.ofList (hyphenate layout (hexDigits 32 u.bits.toNat))

instance : ToString Uuid := ⟨text⟩

/-- The part between braces. -/
def braced? : List Char → Option (List Char)
  | '\x7b' :: cs => if cs.getLast? = some '\x7d' then some cs.dropLast else none
  | _ => none

/-- What stands before an identifier that is written as a uniform resource name. -/
def scheme : List Char := "urn:uuid:".toList

/-- The part after the scheme of a uniform resource name, whose letters may be of either case. -/
def resource? (cs : List Char) : Option (List Char) :=
  if (cs.take scheme.length).map Char.toLower = scheme then some (cs.drop scheme.length) else none

/-- The 32 characters that stand for digits in any of the accepted forms. -/
def digits? (cs : List Char) : Option (List Char) :=
  if cs.length = 32 then some cs
  else ungroup? layout cs
    <|> (braced? cs).bind (ungroup? layout)
    <|> (resource? cs).bind (ungroup? layout)

/-- The identifier that a text writes. -/
def read? (s : String) : Option Uuid := do
  let cs ← digits? s.toList
  let n ← readHexFrom? 0 cs
  return ⟨BitVec.ofNat 128 n⟩

/-- The written form reads back. -/
theorem read?_text (u : Uuid) : read? u.text = some u := by
  have hlen : (hexDigits 32 u.bits.toNat).length = total layout := length_hexDigits 32 _
  have h36 : ∀ cs : List Char, cs.length = 32 → (hyphenate layout cs).length = 36 := by
    intro cs h
    simp only [hyphenate, layout, List.length_append, List.length_take, List.length_cons,
      List.length_drop]
    omega
  have hd : digits? (hyphenate layout (hexDigits 32 u.bits.toNat))
      = some (hexDigits 32 u.bits.toNat) := by
    simp [digits?, h36 _ (length_hexDigits 32 _), ungroup?_hyphenate layout _ hlen]
  have hn : u.bits.toNat % Nat.pow 16 32 = u.bits.toNat := Nat.mod_eq_of_lt u.bits.isLt
  simp only [read?, text, String.toList_ofList, hd, readHexFrom?_hexDigits, hn, Nat.mul_zero,
    Nat.zero_add, Option.bind_eq_bind, Option.bind_some, Option.pure_def, BitVec.ofNat_toNat,
    BitVec.setWidth_eq]

end Uuid

end Chronicle
