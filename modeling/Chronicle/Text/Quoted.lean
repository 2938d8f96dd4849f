import Chronicle.Text.Unprintable

namespace Chronicle

/-!
# Texts in quotes, for reading by people

* `Quoted.quote` — a text between double quotes; quotes, backslashes and line ends are escaped by a
  letter, characters without a visible form by their code point.
* `Quoted.fields` — a named value with its fields, as descriptions of components show it.
-/

namespace Quoted

/-- A character as it is written between quotes. -/
def escape (c : Char) : List Char :=
  match c with
  | '"' => ['\\', '"']
  | '\\' => ['\\', '\\']
  | '\n' => ['\\', 'n']
  | '\r' => ['\\', 'r']
  | '\t' => ['\\', 't']
  | '\x00' => ['\\', '0']
  | c =>
    if Unprintable.holds c then
      '\\' :: 'u' :: '\x7b' :: (Nat.toDigits 16 c.toNat ++ ['\x7d'])
    else [c]

/-- A text between double quotes. -/
def quote (s : String) : String := "\"" ++ String.ofList (s.toList.flatMap escape) ++ "\""

/-- Items between brackets, with commas between them. -/
def list (items : List String) : String := "[" ++ ", ".intercalate items ++ "]"

/-- A name followed by its fields in braces. -/
def fields (name : String) (members : List (String × String)) : String :=
  name ++ " \x7b " ++ ", ".intercalate (members.map fun m => m.1 ++ ": " ++ m.2) ++ " \x7d"

end Quoted

end Chronicle
