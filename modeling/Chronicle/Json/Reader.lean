import Chronicle.Json.Number

namespace Chronicle

/-!
# Reading JSON texts

* `Json.Reader.value` — takes a value off a text.
* `Json.Reader.nextItem`, `Json.Reader.nextKey`, `Json.Reader.nextMember` — step to the next item of
  an array and to the next member of an object; typed readers share them.
* `Json.read` — reads a whole text.

Texts are read from front to back, and the first fault decides. A reader is *strict* where the value
is wanted and *lenient* where it is only skipped: a lenient reader accepts any nesting, numbers of
any size and unpaired surrogates.
-/

namespace Json.Reader

/-- Blank space between tokens: space, tab, line feed and carriage return. -/
def isBlank (c : Char) : Bool := c = ' ' || c = '\t' || c = '\n' || c = '\r'

/-- Skip blank space. -/
def skipBlank (cs : List Char) : List Char := cs.dropWhile isBlank

/-- The characters of a keyword, one by one. -/
def keyword : List Char → List Char → Except Fault (List Char)
  | [], cs => .ok cs
  | _ :: _, [] => .error .truncated
  | k :: ks, c :: cs => if c = k then keyword ks cs else .error .malformed

/-! ### Texts -/

/-- Where a reader stands inside a quoted text. -/
inductive Place where
  /-- Between characters. -/
  | plain
  /-- After a backslash. -/
  | escaped
  /-- Inside the four hexadecimal digits of an escape: the surrogate before it, how many digits were
  read, and their value. -/
  | hex (high : Option Nat) (count : Nat) (n : Nat)
  /-- After a high surrogate, before the backslash of the low one. -/
  | pair (high : Nat)
  /-- After a high surrogate and a backslash. -/
  | pairEscaped (high : Nat)

/-- The character that a one-letter escape stands for. -/
def letterEscape? : Char → Option Char
  | '"' => some '"'
  | '\\' => some '\\'
  | '/' => some '/'
  | 'b' => some '\x08'
  | 'f' => some '\x0c'
  | 'n' => some '\n'
  | 'r' => some '\r'
  | 't' => some '\t'
  | _ => none

/-- The value of a hexadecimal digit. -/
def hexValue? (c : Char) : Option Nat :=
  if c.isDigit then some (c.toNat - 48)
  else if 'a' ≤ c ∧ c ≤ 'f' then some (c.toNat - 87)
  else if 'A' ≤ c ∧ c ≤ 'F' then some (c.toNat - 55)
  else none

/-- The length of a text in UTF-8. -/
def utf8Length (cs : List Char) : Nat := cs.foldl (fun n c => n + c.utf8Size) 0

/-- What follows the four digits of an escape. -/
inductive Escape where
  /-- The escape stands for a character. -/
  | char (c : Char)
  /-- The escape is the first half of a surrogate pair. -/
  | high (n : Nat)

/-- What four hexadecimal digits stand for. -/
def codeUnit (strict : Bool) (high : Option Nat) (n : Nat) : Except Fault Escape :=
  match high with
  | some h =>
    if 0xDC00 ≤ n ∧ n ≤ 0xDFFF then
      .ok (.char (Char.ofNat ((h - 0xD800) * 1024 + (n - 0xDC00) + 0x10000)))
    else .error .malformed
  | none =>
    if !strict then .ok (.char (Char.ofNat n))
    else if 0xDC00 ≤ n ∧ n ≤ 0xDFFF then .error .malformed
    else if 0xD800 ≤ n ∧ n ≤ 0xDBFF then .ok (.high n)
    else .ok (.char (Char.ofNat n))

/-- The rest of a quoted text; `acc` holds the characters read so far, last one first. -/
def textFrom (strict : Bool) : Place → List Char → List Char → Except Fault (String × List Char)
  | _, _, [] => .error .truncated
  | .plain, acc, c :: cs =>
    if c = '"' then .ok (String.ofList acc.reverse, cs)
    else if c = '\\' then textFrom strict .escaped acc cs
    else if c.toNat < 32 then .error .malformed
    else textFrom strict .plain (c :: acc) cs
  | .escaped, acc, c :: cs =>
    if c = 'u' then textFrom strict (.hex none 0 0) acc cs
    else match letterEscape? c with
      | some d => textFrom strict .plain (d :: acc) cs
      | none => .error .malformed
  | .hex high count n, acc, c :: cs =>
    match hexValue? c with
    | none => if 4 ≤ count + utf8Length (c :: cs) then .error .malformed else .error .truncated
    | some d =>
      if count < 3 then textFrom strict (.hex high (count + 1) (16 * n + d)) acc cs
      else match codeUnit strict high (16 * n + d) with
        | .error fault => .error fault
        | .ok (.char c) => textFrom strict .plain (c :: acc) cs
        | .ok (.high h) => textFrom strict (.pair h) acc cs
  | .pair high, acc, c :: cs =>
    if c = '\\' then textFrom strict (.pairEscaped high) acc cs else .error .malformed
  | .pairEscaped high, acc, c :: cs =>
    if c = 'u' then textFrom strict (.hex (some high) 0 0) acc cs else .error .malformed

/-- The rest of a quoted text, after the opening quote. -/
def text (strict : Bool) (cs : List Char) : Except Fault (String × List Char) :=
  textFrom strict .plain [] cs

/-! ### Numbers -/

/-- A number. A skipped number that breaks off is not JSON; a wanted one ends too early. -/
def number (strict : Bool) (cs : List Char) : Except Fault (Json × List Char) := do
  let (literal, rest) ← Number.Literal.scan (if strict then .truncated else .malformed) cs
  if strict then
    match literal.value? with
    | some v => return (v, rest)
    | none => throw .malformed
  else return (.null, rest)

/-! ### Arrays and objects -/

/-- Step to the next item of an array: the text at the item, or `none` at the closing bracket. -/
def nextItem (first : Bool) (cs : List Char) : Except Fault (Option (List Char)) :=
  match skipBlank cs with
  | [] => .error .truncated
  | ']' :: _ => .ok none
  | ',' :: rest =>
    if first then .error .malformed
    else match skipBlank rest with
      | [] => .error .truncated
      | ']' :: _ => .error .malformed
      | rest => .ok (some rest)
  | rest => if first then .ok (some rest) else .error .malformed

/-- The colon between a key and its value. -/
def colon (cs : List Char) : Except Fault (List Char) :=
  match skipBlank cs with
  | [] => .error .truncated
  | ':' :: rest => .ok rest
  | _ => .error .malformed

/-- Step to the next member of an object: its key and the text after the key, or `none` at the
closing brace. -/
def nextKey (strict first : Bool) (cs : List Char) : Except Fault (Option (String × List Char)) :=
  match skipBlank cs with
  | [] => .error .truncated
  | '\x7d' :: _ => .ok none
  | ',' :: rest =>
    if first then .error .malformed
    else match skipBlank rest with
      | [] => .error .truncated
      | '"' :: rest => do return some (← text strict rest)
      | _ => .error .malformed
  | '"' :: rest => if first then do return some (← text strict rest) else .error .malformed
  | _ => .error .malformed

/-- Step to the next member of an object: its key and the text at its value, or `none` at the
closing brace. -/
def nextMember (strict first : Bool) (cs : List Char) :
    Except Fault (Option (String × List Char)) := do
  match ← nextKey strict first cs with
  | none => return none
  | some (key, rest) => return some (key, ← colon rest)

/-- The text after the closing bracket or brace at its front. -/
def close (cs : List Char) : List Char := (skipBlank cs).drop 1

/-- Every array and object inside another takes one of this many levels. -/
def levels : Nat := 127

mutual

/-- Take a value off a text. `fuel` bounds the number of steps; the length of the text suffices. -/
def valueFrom (strict : Bool) : Nat → Nat → List Char → Except Fault (Json × List Char)
  | 0, _, _ => .error .truncated
  | fuel + 1, levels, cs =>
    match skipBlank cs with
    | [] => .error .truncated
    | 'n' :: rest => do return (.null, ← keyword ['u', 'l', 'l'] rest)
    | 't' :: rest => do return (.bool true, ← keyword ['r', 'u', 'e'] rest)
    | 'f' :: rest => do return (.bool false, ← keyword ['a', 'l', 's', 'e'] rest)
    | '"' :: rest => do
      let (s, rest) ← text strict rest
      return (.str s, rest)
    | '[' :: rest =>
      if strict ∧ levels = 0 then .error .malformed
      else do
        let (items, rest) ← itemsFrom strict fuel (levels - 1) true rest
        return (.arr items, rest)
    | '\x7b' :: rest =>
      if strict ∧ levels = 0 then .error .malformed
      else do
        let (members, rest) ← membersFrom strict fuel (levels - 1) true rest
        return (Json.record members, rest)
    | c :: rest => if c = '-' ∨ c.isDigit then number strict (c :: rest) else .error .malformed

/-- The items of an array, up to and with its closing bracket. -/
def itemsFrom (strict : Bool) : Nat → Nat → Bool → List Char → Except Fault (List Json × List Char)
  | 0, _, _, _ => .error .truncated
  | fuel + 1, levels, first, cs => do
    match ← nextItem first cs with
    | none => return ([], close cs)
    | some cs =>
      let (item, rest) ← valueFrom strict fuel levels cs
      let (items, rest) ← itemsFrom strict fuel levels false rest
      return (item :: items, rest)

/-- The members of an object, up to and with its closing brace. -/
def membersFrom (strict : Bool) :
    Nat → Nat → Bool → List Char → Except Fault (List (String × Json) × List Char)
  | 0, _, _, _ => .error .truncated
  | fuel + 1, levels, first, cs => do
    match ← nextMember strict first cs with
    | none => return ([], close cs)
    | some (key, cs) =>
      let (item, rest) ← valueFrom strict fuel levels cs
      let (members, rest) ← membersFrom strict fuel levels false rest
      return ((key, item) :: members, rest)

end

/-- Take a value off a text, with `levels` levels of nesting left. -/
def value (levels : Nat) (cs : List Char) : Except Fault (Json × List Char) :=
  valueFrom true (2 * cs.length + 2) levels cs

/-- Skip a value. -/
def skip (cs : List Char) : Except Fault (List Char) := do
  let (_, rest) ← valueFrom false (2 * cs.length + 2) 0 cs
  return rest

/-- Nothing but blank space is left. -/
def finish (cs : List Char) : Except Fault Unit :=
  if skipBlank cs = [] then .ok () else .error .malformed

end Json.Reader

/-- Read a text as one JSON value. -/
def Json.read (s : String) : Except Json.Fault Json := do
  let (v, rest) ← Json.Reader.value Json.Reader.levels s.toList
  Json.Reader.finish rest
  return v

end Chronicle
