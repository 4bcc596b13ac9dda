import Tidings.Json.Tree
/-!
Reading a tree into a known shape: records, options, enumerations and tagged alternatives.

A tree is read either straight from its text or from a copy. A tagged alternative has to be copied
before its fields are read, because the tag may come last; a copy must be sound in every part, whereas
a reader that knows its fields never looks at the others.
-/
namespace Tidings.Json

/-- Where a part is read from, and how many arrays or objects it may open inside one another. -/
structure Place where
  copied : Bool
  room : Nat

def Place.top : Place := ⟨false, nestingLimit⟩

def Place.inner (p : Place) : Place := { p with room := p.room - 1 }

abbrev Shape (α : Type) := Place → Tree → Option α

def Shape.text : Shape String
  | _, .str s => s
  | _, _ => none

/-- A whole number not above `most`. -/
def Shape.word (most : Nat) : Shape Nat
  | _, .num (some (.int i)) => if 0 ≤ i ∧ i ≤ most then some i.toNat else none
  | _, _ => none

/-- The members of an object whose keys are free. -/
def Shape.members : Shape Members
  | p, .obj members =>
    if p.room = 0 then none
    else (Tree.members? (p.room - 1) members).map Members.ofList
  | _, _ => none

def Shape.option {α : Type} (shape : Shape α) : Shape (Option α)
  | _, .null => some none
  | p, t => (shape p t).map some

/-- The values under one key. -/
def valuesOf (key : String) (members : List (Option String × Tree)) : List Tree :=
  members.filterMap fun m => if m.1 = some key then some m.2 else none

/-- The value of a field that may occur once at most. -/
def field? (members : List (Option String × Tree)) (key : String) : Option (Option Tree) :=
  match valuesOf key members with
  | [] => some none
  | [t] => some (some t)
  | _ => none

/-- The fields of a record, absent ones as `none`. A record is an object, in which other keys do not
count, or the array of all its fields in order. -/
def Shape.fields (keys : List String) : Shape (List (Option Tree))
  | p, .arr items =>
    if p.room ≠ 0 ∧ items.length = keys.length then some (items.map some) else none
  | p, .obj members =>
    if p.room ≠ 0 ∧ members.all (·.1.isSome) then keys.mapM (field? members) else none
  | _, _ => none

/-- A field that must be there. -/
def required {α : Type} (shape : Shape α) (p : Place) (field : Option Tree) : Option α :=
  field.bind (shape p)

/-- A field that is `null` when absent. -/
def optional {α : Type} (shape : Shape α) (p : Place) : Option Tree → Option (Option α)
  | none => some none
  | some t => Shape.option shape p t

/-- What may stand for nothing after the name of an alternative: `null`, and in a copy `{}` too. -/
def isUnit (p : Place) : Tree → Bool
  | .null => true
  | .obj [] => p.copied
  | _ => false

/-- One of several names: the name itself, or an object with the name as its only key and nothing
under it. -/
def Shape.name {α : Type} (find : String → Option α) : Shape α
  | _, .str s => s.bind find
  | p, .obj [(key, t)] => if p.room ≠ 0 ∧ isUnit p t then key.bind find else none
  | _, _ => none

/-- The alternative that a tag names. In a copy its position counts as well. -/
def tagOf {α : Type} (p : Place) (names : List (String × α)) : Tree → Option α
  | .str s => s.bind fun name => names.lookup name
  | .num (some (.int i)) => if p.copied ∧ 0 ≤ i then (names[i.toNat]?).map (·.2) else none
  | _ => none

/-- A tagged alternative: the tag may stand anywhere in an object, or first in an array. The rest of
the object or array holds the fields of the alternative. -/
def Shape.tagged {α : Type} (tag : String) (names : List (String × α)) : Shape (α × Tree)
  | p, t =>
    if ¬ t.isSound p.room then none
    else match t with
      | .arr (first :: rest) => (tagOf p names first).map fun a => (a, .arr rest)
      | .obj members =>
        match valuesOf tag members with
        | [t] => (tagOf p names t).map fun a =>
            (a, .obj (members.filter fun m => m.1 ≠ some tag))
        | _ => none
      | _ => none

def Shape.read? {α : Type} (shape : Shape α) (text : String) : Option α :=
  (Tree.ofText? text).bind (shape Place.top)

end Tidings.Json
