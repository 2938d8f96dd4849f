import Chronicle.Data.Dict

namespace Chronicle

/-!
# JSON values

* `Json` — null, truth values, numbers, texts, arrays and objects. Whole numbers are kept apart
  from numbers with a fraction or an exponent.
* `Json.record` — the object of a list of members; members are kept in key order and the last
  member of a key wins.
* `Json.Fault` — why a text or a value could not be read.
-/

/-- A JSON value. The members of an object stand in strictly increasing key order. -/
inductive Json where
  /-- The value `null`. -/
  | null
  /-- A truth value. -/
  | bool (b : Bool)
  /-- A whole number. -/
  | int (n : Int)
  /-- A number in double precision. -/
  | float (x : Float)
  /-- A text. -/
  | str (s : String)
  /-- An array. -/
  | arr (items : List Json)
  /-- An object. -/
  | obj (members : List (String × Json))

namespace Json

instance : Inhabited Json := ⟨.null⟩

/-- Why a text or a value could not be read. -/
inductive Fault where
  /-- The text ends too early. -/
  | truncated
  /-- The text is not JSON. -/
  | malformed
  /-- The JSON value does not have the shape that was asked for. -/
  | mismatch
deriving DecidableEq, Repr

/-- The object of a list of members; the last member of a key wins. -/
def record (members : List (String × Json)) : Json :=
  .obj (members.foldl (fun l m => Dict.place m.1 m.2 l) [])

/-- The object of a dictionary. -/
def ofDict (d : Dict Json) : Json := .obj d.entries

/-- The member of an object under a key. -/
def get? (key : String) : Json → Option Json
  | .obj members => Table.find key members
  | _ => none

/-- The text that a value is. -/
def str? : Json → Option String
  | .str s => some s
  | _ => none

/-- The whole number that a value is. -/
def int? : Json → Option Int
  | .int n => some n
  | _ => none

/-- The items of an array. -/
def items? : Json → Option (List Json)
  | .arr items => some items
  | _ => none

/-- The members of an object. -/
def members? : Json → Option (List (String × Json))
  | .obj members => some members
  | _ => none

theorem sorted_foldl_place (members l : List (String × Json)) (h : Dict.Sorted l) :
    Dict.Sorted (members.foldl (fun l m => Dict.place m.1 m.2 l) l) := by
  induction members generalizing l with
  | nil => exact h
  | cons m rest ih => exact ih _ (Dict.sorted_place m.1 m.2 h)

/-- The members of a record stand in strictly increasing key order. -/
theorem sorted_record (members : List (String × Json)) :
    ∃ l, record members = .obj l ∧ Dict.Sorted l :=
  ⟨_, rfl, sorted_foldl_place members [] List.Pairwise.nil⟩

end Json

end Chronicle
