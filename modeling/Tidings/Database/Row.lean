import Tidings.Database.Failure
import Tidings.Event
import Tidings.Fault
import Tidings.Json.Printer
import Tidings.Json.Shape
/-!
Rows. A column holds nothing, a text, an identifier, a JSON text, or a time in whole microseconds.
-/
namespace Tidings.Database

/-- The beginning of 2000, from which the database counts. -/
def epochSeconds : Int := 946684800

/-- A time as the database holds it, in microseconds since 1970: whole ones since 2000, so that what is
dropped makes a time before 2000 later and one after it earlier. -/
def microsOf (t : Instant) : Int :=
  (t.toNanos - epochSeconds * billion).tdiv 1000 + epochSeconds * 1000000

inductive Cell where
  | null
  | text (s : String)
  | id (id : Id)
  | json (text : String)
  | time (micros : Int)
deriving DecidableEq, Repr

abbrev Row := List (String × Cell)

namespace Row

/-- A column that is not there is like one that holds nothing. -/
def cell (row : Row) (name : String) : Cell := (row.lookup name).getD .null

/-- How an error names a column. -/
def quoted (name : String) : String := "\"" ++ name ++ "\""

def unexpectedNull (column : String) : Fault :=
  .ofDatabase (.column column "unexpected null; try decoding as an `Option`")

/-- What is said of a column that holds another kind of value. -/
def mismatch (column : String) : Fault :=
  .ofDatabase (.column column "mismatched types")

def text (row : Row) (name : String) : Except Fault String :=
  match row.cell name with
  | .text s => .ok s
  | .null => .error (unexpectedNull (quoted name))
  | _ => .error (mismatch (quoted name))

def text? (row : Row) (name : String) : Except Fault (Option String) :=
  match row.cell name with
  | .null => .ok none
  | _ => (row.text name).map some

/-- A character of a text as an error shows it. -/
def shownChar (c : Char) : List Char :=
  if c = '"' ∨ c = '\\' then ['\\', c]
  else if c = '\n' then ['\\', 'n']
  else if c = '\r' then ['\\', 'r']
  else if c = '\t' then ['\\', 't']
  else if c = '\x00' then ['\\', '0']
  else if c.toNat < 32 ∨ c.toNat = 127 then
    ['\\', 'u', '{'] ++ Nat.toDigits 16 c.toNat ++ ['}']
  else [c]

/-- The kind of a JSON value that is no object, as an error names it, and the column of the text at which
that is known. -/
def jsonKind? (text : String) : Json.Tree → Option (String × Nat)
  | .null => some ("null", 4)
  | .bool true => some ("boolean `true`", 4)
  | .bool false => some ("boolean `false`", 5)
  | .num n => n.map fun n => (jsonNumber text n, text.utf8ByteSize)
  | .str s => s.map fun s =>
      ("string \"" ++ String.ofList (s.toList.flatMap shownChar) ++ "\"", text.utf8ByteSize)
  | .arr _ => some ("sequence", 0)
  | .obj _ => none
where
  jsonNumber (text : String) : Json.Number → String
    | .int _ => "integer `" ++ text ++ "`"
    | .real x => "floating point `" ++ String.ofList (x.renderIn .plain) ++ "`"

def members (row : Row) (name : String) : Except Fault Json.Members :=
  match row.cell name with
  | .json text =>
    match Json.Shape.members.read? text with
    | some members => .ok members
    | none =>
      match (Json.Tree.ofText? text).bind (jsonKind? text) with
      | some (kind, column) =>
        .error (.ofDatabase (.column (quoted name) ("invalid type: " ++ kind ++
          ", expected a map at line 1 column " ++ toString column)))
      | none => .error (mismatch (quoted name))
  | .null => .error (unexpectedNull (quoted name))
  | _ => .error (mismatch (quoted name))

/-- An identifier; `column` is how an error names the place. -/
def idOf (column : String) : Cell → Except Fault Id
  | .id id => .ok id
  | .null => .error (unexpectedNull column)
  | _ => .error (mismatch column)

def time (row : Row) (name : String) : Except Fault Instant :=
  match row.cell name with
  | .time micros =>
    match Instant.ofMicros? micros with
    | some t => .ok t
    | none => .error (mismatch (quoted name))
  | .null => .error (unexpectedNull (quoted name))
  | _ => .error (mismatch (quoted name))

def address (row : Row) : Except Fault Address := do
  let name ← row.text "scope"
  match Scope.ofName? name with
  | none => throw (.database (Scope.unknown name))
  | some scope =>
    let owner ← row.text "scope_id"
    return ⟨scope, owner⟩

def modeOf (name : String) : Except Fault Mode :=
  match Mode.ofName? name with
  | some mode => .ok mode
  | none => .error (.database (Mode.unknown name))

def notification (row : Row) : Except Fault Notification := do
  let mode ← row.text "mode"
  let payload ← row.members "payload"
  let id ← idOf (quoted "id") (row.cell "id")
  let kind ← row.text "kind"
  let target ← row.address
  let group ← row.text? "group_key"
  let mode ← modeOf mode
  let createdAt ← row.time "created_at"
  return ⟨id, kind, some target, group, mode, payload, createdAt⟩

end Row

end Tidings.Database
