import Chronicle.Json.Basic
import Chronicle.Text.Shortest

namespace Chronicle

/-!
# Writing JSON

* `Json.render` — the compact text of a value.
* `Json.floatText` — a double with the fewest digits that read back; it always has a point or an
  exponent, so it never reads as a whole number.
-/

namespace Json

/-! ### Texts -/

/-- The hexadecimal digits of a code point below 256, four of them. -/
def hex4 (n : Nat) : List Char :=
  ['0', '0', Nat.digitChar (n / 16 % 16), Nat.digitChar (n % 16)]

/-- A character of a text as it is written between quotes. -/
def escapeChar (c : Char) : List Char :=
  match c with
  | '"' => ['\\', '"']
  | '\\' => ['\\', '\\']
  | '\n' => ['\\', 'n']
  | '\r' => ['\\', 'r']
  | '\t' => ['\\', 't']
  | c => if c.toNat < 32 then '\\' :: 'u' :: hex4 c.toNat else [c]

/-- A text in quotes. -/
def quote (s : String) : String :=
  "\"" ++ String.ofList (s.toList.flatMap escapeChar) ++ "\""

/-! ### Numbers -/

/-- Digits with a point after the first `k` of them, and a zero where a side would be empty. -/
def pointed (ds : List Char) (k : Nat) : List Char :=
  let whole := ds.take k ++ List.replicate (k - ds.length) '0'
  let fraction := ds.drop k
  (if whole = [] then ['0'] else whole) ++ '.' :: (if fraction = [] then ['0'] else fraction)

/-- The text of a finite double: positional from `1e-5` up to `1e16`, else with an exponent. -/
def floatText (x : Float) : String :=
  let sign := if 9223372036854775808 ≤ x.toBits.toNat then "-" else ""
  if x == 0 then sign ++ "0.0"
  else
    let (ds, k) := Shortest.digits x.toBits
    let body :=
      if 0 ≤ k ∧ k < 16 then String.ofList (pointed ds (k.toNat + 1))
      else if -5 ≤ k ∧ k < 0 then
        String.ofList (pointed (List.replicate (-k - 1).toNat '0' ++ ds) 0)
      else
        match ds with
        | [d] => String.ofList [d] ++ "e" ++ toString k
        | ds => String.ofList (pointed ds 1) ++ "e" ++ toString k
    sign ++ body

/-! ### Values -/

mutual

/-- The compact text of a value. -/
def render : Json → String
  | .null => "null"
  | .bool true => "true"
  | .bool false => "false"
  | .int n => toString n
  | .float x => floatText x
  | .str s => quote s
  | .arr items => "[" ++ renderItems items ++ "]"
  | .obj members => "\x7b" ++ renderMembers members ++ "\x7d"

/-- The texts of the items of an array, with commas between them. -/
def renderItems : List Json → String
  | [] => ""
  | [v] => render v
  | v :: rest => render v ++ "," ++ renderItems rest

/-- The texts of the members of an object, with commas between them. -/
def renderMembers : List (String × Json) → String
  | [] => ""
  | [(key, v)] => quote key ++ ":" ++ render v
  | (key, v) :: rest => quote key ++ ":" ++ render v ++ "," ++ renderMembers rest

end

end Json

end Chronicle
