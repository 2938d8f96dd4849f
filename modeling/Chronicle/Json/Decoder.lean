import Chronicle.Json.Reader
import Chronicle.Text.Numeral

namespace Chronicle

/-!
# Typed reading of JSON

* `Decoder α` — how to take an `α` off a text, and how to read one from a value at hand.
* `Decoder.any`, `Decoder.string`, `Decoder.integer`, `Decoder.strings` — the basic decoders.
* `Decoder.struct` — a structure, written as an object with known keys or as the array of its
  fields in order.
* `Decoder.variant` — one of several structures, written under its name.
* `Decoder.run` — decodes a whole text.

Decoding a text faults at the first problem from the front: a wrong shape that shows before a broken
token wins over it. Decoding a value at hand has one fault only, so it answers an option.
-/

/-- How to read an `α` from JSON. -/
structure Decoder (α : Type) where
  /-- Take an `α` off a text, with a number of levels of nesting left. -/
  ofText : Nat → List Char → Except Json.Fault (α × List Char)
  /-- Read an `α` from a value. -/
  ofValue : Json → Option α

namespace Decoder

open Json.Reader

/-- What is wrong with a text whose value does not have the wanted shape: a broken keyword, number
or string is still broken, and arrays and objects are not looked into. -/
def mismatch (cs : List Char) : Json.Fault :=
  let scalar {α : Type} : Except Json.Fault α → Json.Fault
    | .ok _ => .mismatch
    | .error fault => fault
  match cs with
  | [] => .truncated
  | 'n' :: rest => scalar (keyword ['u', 'l', 'l'] rest)
  | 't' :: rest => scalar (keyword ['r', 'u', 'e'] rest)
  | 'f' :: rest => scalar (keyword ['a', 'l', 's', 'e'] rest)
  | '"' :: rest => scalar (text true rest)
  | '[' :: _ | '\x7b' :: _ => .mismatch
  | c :: rest => if c = '-' ∨ c.isDigit then scalar (number true (c :: rest)) else .malformed

/-! ### Basic decoders -/

/-- Any value. -/
def any : Decoder Json where
  ofText := value
  ofValue v := some v

/-- A text. -/
def string : Decoder String where
  ofText _ cs := match skipBlank cs with
    | '"' :: rest => text true rest
    | cs => .error (mismatch cs)
  ofValue := Json.str?

/-- A whole number between two bounds. -/
def integer (least greatest : Int) : Decoder Int where
  ofText _ cs := match skipBlank cs with
    | c :: rest =>
      if c = '-' ∨ c.isDigit then do
        match ← number true (c :: rest) with
        | (.int n, rest) => if least ≤ n ∧ n ≤ greatest then return (n, rest) else throw .mismatch
        | _ => throw .mismatch
      else .error (mismatch (c :: rest))
    | [] => .error .truncated
  ofValue v := v.int?.filter fun n => least ≤ n ∧ n ≤ greatest

/-- A signed 64-bit number. -/
def word64 : Decoder Int := integer Word64.least Word64.greatest

/-- A number of at most 32 bits without sign. -/
def natural32 : Decoder Nat where
  ofText levels cs := do
    let (n, rest) ← (integer 0 4294967295).ofText levels cs
    return (n.toNat, rest)
  ofValue v := ((integer 0 4294967295).ofValue v).map Int.toNat

/-- A number of at most 64 bits without sign. -/
def natural64 : Decoder Nat where
  ofText levels cs := do
    let (n, rest) ← (integer 0 18446744073709551615).ofText levels cs
    return (n.toNat, rest)
  ofValue v := ((integer 0 18446744073709551615).ofValue v).map Int.toNat

/-- What another decoder reads, if it also passes a test that makes a `β` of it. -/
def filterMap {α β : Type} (d : Decoder α) (f : α → Option β) : Decoder β where
  ofText levels cs := do
    let (a, rest) ← d.ofText levels cs
    match f a with
    | some b => return (b, rest)
    | none => throw .mismatch
  ofValue v := (d.ofValue v).bind f

/-- The members of an object of texts, from the front of a text. -/
def stringsFrom : Nat → Bool → Dict String → List Char →
    Except Json.Fault (Dict String × List Char)
  | 0, _, _, _ => .error .truncated
  | fuel + 1, first, d, cs => do
    match ← nextMember true first cs with
    | none => return (d, close cs)
    | some (key, cs) =>
      let (s, rest) ← string.ofText 0 cs
      stringsFrom fuel false (d.insert key s) rest

/-- The texts of an object's members, if all are texts. -/
def stringMembers? : List (String × Json) → Option (List (String × String))
  | [] => some []
  | (key, v) :: rest =>
    match v.str?, stringMembers? rest with
    | some s, some l => some ((key, s) :: l)
    | _, _ => none

/-- An object whose members are texts; the last member of a key wins. -/
def strings : Decoder (Dict String) where
  ofText levels cs := match skipBlank cs with
    | '\x7b' :: rest =>
      if levels = 0 then .error .malformed
      else stringsFrom (rest.length + 1) true Dict.empty rest
    | cs => .error (mismatch cs)
  ofValue v := (v.members?.bind stringMembers?).map Dict.ofList

/-! ### Structures -/

/-- One field of a structure that is collected in a `σ`. -/
structure Field (σ : Type) where
  /-- The key of the field in an object. -/
  name : String
  /-- Take the field off a text and store it. -/
  ofText : Nat → List Char → Except Json.Fault ((σ → σ) × List Char)
  /-- Read the field from a value and store it. -/
  ofValue : Json → Option (σ → σ)

/-- The field called `name`, read by `d` and stored by `set`. -/
def field {α σ : Type} (name : String) (d : Decoder α) (set : α → σ → σ) : Field σ where
  name := name
  ofText levels cs := do
    let (a, rest) ← d.ofText levels cs
    return (set a, rest)
  ofValue v := (d.ofValue v).map set

/-- The shape of a structure: how its fields are collected and when they are complete. -/
structure Shape (σ α : Type) where
  /-- The fields in order. -/
  fields : List (Field σ)
  /-- No field has been read. -/
  start : σ
  /-- The structure, unless a field that is needed is missing. -/
  complete : σ → Option α

/-- The members of a structure written as an object. An unknown member is skipped, a known one that
comes twice is a mismatch as soon as its key is read again, whatever follows the key. -/
def membersFrom {σ : Type} (fields : List (Field σ)) (levels : Nat) :
    Nat → Bool → List String → σ → List Char → Except Json.Fault (σ × List Char)
  | 0, _, _, _, _ => .error .truncated
  | fuel + 1, first, seen, acc, cs => do
    match ← nextKey true first cs with
    | none => return (acc, cs)
    | some (key, cs) =>
      match fields.find? (·.name = key) with
      | none => membersFrom fields levels fuel false seen acc (← skip (← colon cs))
      | some f =>
        if key ∈ seen then throw .mismatch
        let (store, rest) ← f.ofText levels (← colon cs)
        membersFrom fields levels fuel false (key :: seen) (store acc) rest

/-- The items of a structure written as an array. Items may be left out at the end. -/
def itemsFrom {σ : Type} (levels : Nat) :
    List (Field σ) → Bool → σ → List Char → Except Json.Fault (σ × List Char)
  | [], _, acc, cs => .ok (acc, cs)
  | f :: fields, first, acc, cs => do
    match ← nextItem first cs with
    | none => return (acc, cs)
    | some cs =>
      let (store, rest) ← f.ofText levels cs
      itemsFrom levels fields false (store acc) rest

/-- The closing bracket after the last field of a structure; further items are refused. -/
def endItems (cs : List Char) : Except Json.Fault (List Char) :=
  match skipBlank cs with
  | [] => .error .truncated
  | ']' :: rest => .ok rest
  | _ => .error .malformed

/-- Read the fields of a structure from an object at hand. -/
def ofMembers {σ : Type} (members : List (String × Json)) : List (Field σ) → σ → Option σ
  | [], acc => some acc
  | f :: fields, acc =>
    match Table.find f.name members with
    | none => ofMembers members fields acc
    | some v => (f.ofValue v).bind fun store => ofMembers members fields (store acc)

/-- Read the fields of a structure from an array at hand. Items may be left out at the end. -/
def ofItems {σ : Type} : List (Field σ) → List Json → σ → Option σ
  | _, [], acc => some acc
  | [], _ :: _, _ => none
  | f :: fields, v :: items, acc =>
    (f.ofValue v).bind fun store => ofItems fields items (store acc)

/-- A structure, written as an object or as an array of its fields. -/
def struct {σ α : Type} (shape : Shape σ α) : Decoder α where
  ofText levels cs :=
    let finished (acc : σ) : Except Json.Fault α :=
      match shape.complete acc with
      | some a => .ok a
      | none => .error .mismatch
    match skipBlank cs with
    | '[' :: rest =>
      if levels = 0 then .error .malformed
      else do
        let (acc, rest) ← itemsFrom (levels - 1) shape.fields true shape.start rest
        let a ← finished acc
        return (a, ← endItems rest)
    | '\x7b' :: rest =>
      if levels = 0 then .error .malformed
      else do
        let (acc, rest) ←
          membersFrom shape.fields (levels - 1) (rest.length + 1) true [] shape.start rest
        let a ← finished acc
        return (a, close rest)
    | cs => .error (mismatch cs)
  ofValue v := match v with
    | .obj members => (ofMembers members shape.fields shape.start).bind shape.complete
    | .arr items => (ofItems shape.fields items shape.start).bind shape.complete
    | _ => none

/-! ### Variants -/

/-- One of several structures, written as an object whose only member is named for the variant. The
name is looked up before anything that follows it is read. A name alone is a mismatch. -/
def variant {α : Type} (variants : List (String × Decoder α)) : Decoder α where
  ofText levels cs :=
    match skipBlank cs with
    | [] => .error .truncated
    | '"' :: rest => .error (mismatch ('"' :: rest))
    | '\x7b' :: rest =>
      if levels = 0 then .error .malformed
      else match skipBlank rest with
      | [] => .error .truncated
      | '"' :: rest => do
        let (name, rest) ← text true rest
        match Table.find name variants with
        | none => throw .mismatch
        | some d =>
          let (a, rest) ← d.ofText (levels - 1) (← colon rest)
          match skipBlank rest with
          | [] => throw .truncated
          | '\x7d' :: rest => return (a, rest)
          | _ => throw .malformed
      | _ => .error .malformed
    | _ => .error .malformed
  ofValue v := match v with
    | .obj [(name, v)] => (Table.find name variants).bind fun d => d.ofValue v
    | _ => none

/-! ### Whole texts -/

/-- Decode a whole text. -/
def run {α : Type} (d : Decoder α) (s : String) : Except Json.Fault α := do
  let (a, rest) ← d.ofText levels s.toList
  finish rest
  return a

end Decoder

end Chronicle
