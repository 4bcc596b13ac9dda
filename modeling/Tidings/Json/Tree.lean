import Tidings.Json.Token
/-!
The tree of a JSON text. The tokens are folded over a stack of open arrays and objects. The tree keeps
members as they were written, repeated keys too, and strings and numbers that denote nothing; what is
made of those is up to the shape that the text is read into (`Tidings.Json.Shape`).
-/
namespace Tidings.Json

inductive Tree where
  | null
  | bool (b : Bool)
  | num (n : Option Number)
  | str (s : Option String)
  | arr (items : List Tree)
  | obj (members : List (Option String × Tree))
deriving Repr, Inhabited

/-- An array or object that has been opened and not closed, its parts last first. -/
inductive Opened where
  | arr (items : List Tree)
  | obj (members : List (Option String × Tree))
  | keyed (members : List (Option String × Tree)) (key : Option String)

inductive Expect where
  | value
  | valueOrEnd
  | key
  | keyOrEnd
  | colon
  | commaOrEnd

structure Parse where
  expect : Expect
  stack : List Opened
  result : Option Tree

def Parse.start : Parse := ⟨.value, [], none⟩

/-- A finished value goes into the innermost open array or object, or is the result. -/
def Parse.put? (stack : List Opened) (t : Tree) : Option Parse :=
  match stack with
  | [] => some ⟨.commaOrEnd, [], some t⟩
  | .arr items :: rest => some ⟨.commaOrEnd, .arr (t :: items) :: rest, none⟩
  | .keyed members key :: rest => some ⟨.commaOrEnd, .obj ((key, t) :: members) :: rest, none⟩
  | .obj _ :: _ => none

def Parse.value? (stack : List Opened) : Token → Option Parse
  | .null => Parse.put? stack .null
  | .bool b => Parse.put? stack (.bool b)
  | .num n => Parse.put? stack (.num n)
  | .str s => Parse.put? stack (.str s)
  | .beginArr => some ⟨.valueOrEnd, .arr [] :: stack, none⟩
  | .beginObj => some ⟨.keyOrEnd, .obj [] :: stack, none⟩
  | _ => none

def Parse.key? (stack : List Opened) : Token → Option Parse
  | .str key =>
    match stack with
    | .obj members :: rest => some ⟨.colon, .keyed members key :: rest, none⟩
    | _ => none
  | _ => none

def Parse.endArr? : List Opened → Option Parse
  | .arr items :: rest => Parse.put? rest (.arr items.reverse)
  | _ => none

def Parse.endObj? : List Opened → Option Parse
  | .obj members :: rest => Parse.put? rest (.obj members.reverse)
  | _ => none

def Parse.step? (p : Parse) (t : Token) : Option Parse :=
  match p.expect with
  | .value => Parse.value? p.stack t
  | .valueOrEnd => if t = .endArr then Parse.endArr? p.stack else Parse.value? p.stack t
  | .key => Parse.key? p.stack t
  | .keyOrEnd => if t = .endObj then Parse.endObj? p.stack else Parse.key? p.stack t
  | .colon => if t = .colon then some { p with expect := .value } else none
  | .commaOrEnd =>
    match t, p.stack with
    | .comma, .arr _ :: _ => some { p with expect := .value }
    | .comma, .obj _ :: _ => some { p with expect := .key }
    | .endArr, stack => Parse.endArr? stack
    | .endObj, stack => Parse.endObj? stack
    | _, _ => none

def Parse.finish? (p : Parse) : Option Tree :=
  if p.stack.isEmpty then p.result else none

def Tree.ofText? (text : String) : Option Tree :=
  (tokens? text.toList).bind fun tokens =>
    (tokens.foldlM Parse.step? Parse.start).bind Parse.finish?

/-- An object that begins with this key is no object: it stands for the value of the JSON text that it
holds there. -/
def embeddingKey : String := "$serde_json::private::RawValue"

/-- Whether the members of an object begin with the key of an embedded text. -/
def isEmbedding (members : List (Option String × Tree)) : Bool :=
  members.head?.any fun m => m.1 = some embeddingKey

/-- The embedded text. It is a string, and no other member comes after it. -/
def embeddedText? : List (Option String × Tree) → Option String
  | [(_, .str text)] => text
  | _ => none

/-- How many arrays and objects a text may open inside one another. -/
def nestingLimit : Nat := 127

mutual
/-- The value of a tree that may still open `room` arrays or objects inside one another: objects sorted
by key, the last of a repeated key winning. None when a part denotes nothing or lies too deep. `embedded`
reads the texts that stand for values. -/
def Tree.valueBy? (embedded : String → Option Value) : Nat → Tree → Option Value
  | _, .null => some .null
  | _, .bool b => some (.bool b)
  | _, .num n => n.map .num
  | _, .str s => s.map .str
  | 0, .arr _ => none
  | 0, .obj _ => none
  | room + 1, .arr items => (Tree.valuesBy? embedded room items).map .arr
  | room + 1, .obj members =>
    if isEmbedding members then (embeddedText? members).bind embedded
    else (Tree.membersBy? embedded room members).map fun ms => .obj (Members.ofList ms)

def Tree.valuesBy? (embedded : String → Option Value) : Nat → List Tree → Option (List Value)
  | _, [] => some []
  | room, t :: ts => do
    let v ← t.valueBy? embedded room
    let vs ← Tree.valuesBy? embedded room ts
    some (v :: vs)

/-- The members of an object as they are written. -/
def Tree.membersBy? (embedded : String → Option Value) :
    Nat → List (Option String × Tree) → Option Members
  | _, [] => some []
  | room, (key, t) :: ts => do
    let k ← key
    let v ← t.valueBy? embedded room
    let vs ← Tree.membersBy? embedded room ts
    some ((k, v) :: vs)
end

/-- The value of a text. A text that is embedded in it is always shorter, and is read in the same way, with
all the room that there is. -/
def Value.ofText? (text : String) : Option Value :=
  (Tree.ofText? text).bind (Tree.valueBy?
    (fun inner => if inner.length < text.length then Value.ofText? inner else none) nestingLimit)
termination_by text.length

def Tree.value? (room : Nat) (t : Tree) : Option Value := t.valueBy? Value.ofText? room

def Tree.members? (room : Nat) (members : List (Option String × Tree)) : Option Members :=
  Tree.membersBy? Value.ofText? room members

mutual
/-- Whether every part of a tree denotes something and none lies too deep. Nothing is made of embedded
texts. -/
def Tree.isSound : Nat → Tree → Bool
  | _, .null => true
  | _, .bool _ => true
  | _, .num n => n.isSome
  | _, .str s => s.isSome
  | 0, .arr _ => false
  | 0, .obj _ => false
  | room + 1, .arr items => Tree.areSound room items
  | room + 1, .obj members => Tree.membersAreSound room members

def Tree.areSound : Nat → List Tree → Bool
  | _, [] => true
  | room, t :: ts => t.isSound room && Tree.areSound room ts

def Tree.membersAreSound : Nat → List (Option String × Tree) → Bool
  | _, [] => true
  | room, (key, t) :: ts => key.isSome && t.isSound room && Tree.membersAreSound room ts
end

end Tidings.Json
