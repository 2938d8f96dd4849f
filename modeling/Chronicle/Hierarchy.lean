import Chronicle.Event.Basic
import Chronicle.Data.Table

namespace Chronicle

/-!
# The hierarchy of event types

* `Declaration` — an event type, the type it extends and the interfaces it implements.
* `Hierarchy.ofDeclarations` — checks declarations and computes for every declared type the tags
  that handlers for its events may be registered under.
* `Hierarchy.candidates` — those tags in the order of preference: the type, its interfaces, its
  ancestors, the universal tag.
-/

/-- An event type and what it descends from. -/
structure Declaration where
  /-- The type's tag. -/
  name : String
  /-- The type it extends. -/
  parent : Option String := none
  /-- The interfaces it implements, in order. -/
  interfaces : List String := []

/-- Why declarations do not make a hierarchy. -/
inductive HierarchyError where
  /-- A type is declared more than once. -/
  | duplicateDeclaration (name : String)
  /-- A type is among its own ancestors, or one of its ancestors is. -/
  | cycle (name : String)
  /-- A type implements the universal tag. -/
  | rootAsInterface (name : String)
deriving DecidableEq

/-- The error as a sentence. -/
def HierarchyError.message : HierarchyError → String
  | duplicateDeclaration name => s!"Event type declared more than once: {name}"
  | cycle name => s!"Event type {name} is its own ancestor"
  | rootAsInterface name =>
    s!"Event type {name} cannot declare the universal root as an interface"

/-- For every declared type, the tags its events match. -/
structure Hierarchy where
  /-- The candidate lists, in order of declaration. -/
  declared : Table String (List String) := Table.empty

namespace Hierarchy

/-- The hierarchy without declarations. -/
def flat : Hierarchy := {}

instance : Inhabited Hierarchy := ⟨flat⟩

/-! ### Ancestors -/

/-- The chain of ancestors that starts at a link, ended by a type without parent or by the
universal tag; `none` if it visits a type twice. `fuel` is the number of links that may be
followed: a longer chain visits a declared type twice. -/
def chainFrom (parentOf : String → Option String) :
    Nat → List String → Option String → Option (List String)
  | _, _, none => some []
  | 0, _, some p => if p = Event.universalTag then some [] else none
  | fuel + 1, seen, some p =>
    if p = Event.universalTag then some []
    else if p ∈ seen then none
    else (chainFrom parentOf fuel (p :: seen) (parentOf p)).map (p :: ·)

/-- The declarations of a list by their names. -/
abbrev Declared := Table String Declaration

/-- The parent of a type, if it is declared and has one. -/
def parentOf (decls : Declared) (name : String) : Option String :=
  (decls.get? name).bind Declaration.parent

/-- The interfaces that a type implements itself. -/
def interfacesOf (decls : Declared) (name : String) : List String :=
  ((decls.get? name).map Declaration.interfaces).getD []

/-- The ancestors of a declared type, nearest first. -/
def ancestors? (decls : Declared) (name : String) : Option (List String) :=
  chainFrom (parentOf decls) (decls.size + 1) [name] (parentOf decls name)

/-- The tags that events of a declared type match, in order of preference. -/
def candidatesOf? (decls : Declared) (name : String) : Option (List String) :=
  (ancestors? decls name).map fun ancestors =>
    let interfaces := ((name :: ancestors).flatMap (interfacesOf decls)).eraseDups
    name :: interfaces ++ ancestors ++ [Event.universalTag]

/-! ### Building -/

/-- Collect declarations; the first one that cannot stand is refused. -/
def collect : Declared → List Declaration → Except HierarchyError Declared
  | decls, [] => .ok decls
  | decls, d :: rest =>
    -- Asked first, so it also wins over a repeated name.
    if Event.universalTag ∈ d.interfaces then .error (.rootAsInterface d.name)
    else if decls.contains d.name then .error (.duplicateDeclaration d.name)
    else collect (decls.insert d.name d) rest

/-- The candidate lists of the given types. -/
def resolveAll (decls : Declared) :
    Table String (List String) → List String → Except HierarchyError (Table String (List String))
  | acc, [] => .ok acc
  | acc, name :: rest =>
    match candidatesOf? decls name with
    | some tags => resolveAll decls (acc.insert name tags) rest
    | none => .error (.cycle name)

/-- The hierarchy of a list of declarations. -/
def ofDeclarations (decls : List Declaration) : Except HierarchyError Hierarchy := do
  let decls ← collect Table.empty decls
  return ⟨← resolveAll decls Table.empty decls.keys⟩

/-! ### Looking up -/

/-- The tags that events of a type match, in order of preference. -/
def candidates (h : Hierarchy) (tag : String) : List String :=
  match h.declared.get? tag with
  | some tags => tags
  | none => if tag = Event.universalTag then [tag] else [tag, Event.universalTag]

/-- The declared types. -/
def declaredTypes (h : Hierarchy) : List String := h.declared.keys

@[simp] theorem declaredTypes_flat : flat.declaredTypes = [] := rfl

theorem candidates_flat (tag : String) :
    flat.candidates tag = if tag = Event.universalTag then [tag] else [tag, Event.universalTag] :=
  rfl

end Hierarchy

end Chronicle
