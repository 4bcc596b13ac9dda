import Tidings.Address
import Tidings.Fault
import Tidings.Text.Blank
import Tidings.Text.Casing
import Tidings.Text.Percent
import Tidings.Text.Split
/-!
Who is calling. A caller has a session, named by a header or else by a cookie, and may have a user, named
by a header.
-/
namespace Tidings.Http

/-- A name and a value, which has one character for each byte. -/
abbrev Header := String × String

structure Identity where
  session : String
  user : Option String
deriving DecidableEq, Repr

namespace Identity

/-- The addresses that a caller listens to: its session, then its user. -/
def addresses (i : Identity) : List Address :=
  ⟨.session, i.session⟩ :: (i.user.map (Address.mk .user)).toList

/-- A header value can be read if it has only visible ASCII characters, spaces and tabs; any other byte spoils
it. -/
def isReadable (value : String) : Bool :=
  value.toList.all fun c => (32 ≤ c.toNat && c.toNat < 127) || c = '\t'

/-- Names of headers are the same in any case. -/
def isNamed (name : String) (h : Header) : Bool :=
  Text.lowerAscii h.1 = name

/-- The first header of a name, trimmed, if it can be read and is not blank. -/
def headerValue? (headers : List Header) (name : String) : Option String :=
  match headers.find? (isNamed name) with
  | none => none
  | some (_, value) =>
    if isReadable value ∧ Text.trim value ≠ "" then some (Text.trim value) else none

def trimChars (cs : List Char) : List Char := Text.trimEnd (Text.trimStart cs)

/-- One cookie: a name, the first equals sign, and a value; both are trimmed, then unescaped. -/
def cookie? (cs : List Char) : Option (String × String) :=
  match Text.cut '=' cs with
  | (_, none) => none
  | (name, some value) =>
    if trimChars name = [] then none
    else do
      let name ← Text.unescape? (String.ofList (trimChars name))
      let value ← Text.unescape? (String.ofList (trimChars value))
      some (name, value)

def cookies (headers : List Header) : List (String × String) :=
  ((headers.filter fun h => isNamed "cookie" h && isReadable h.2).flatMap fun h =>
    Text.splitAll ';' h.2.toList).filterMap cookie?

/-- The value of the last cookie of a name, unless it is empty. -/
def cookieValue? (headers : List Header) (name : String) : Option String :=
  (((cookies headers).reverse.find? fun c => c.1 = name).map (·.2)).filter (· ≠ "")

def sessionHeader : String := "x-session-id"

def userHeader : String := "x-user-id"

def sessionCookie : String := "session_id"

def ofHeaders (headers : List Header) : Except Fault Identity :=
  match (headerValue? headers sessionHeader) <|> (cookieValue? headers sessionCookie) with
  | some session => .ok ⟨session, headerValue? headers userHeader⟩
  | none => .error (.invalidInput "missing session id")

end Identity

end Tidings.Http
