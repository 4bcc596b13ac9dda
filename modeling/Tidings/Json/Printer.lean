import Tidings.Json.Value
import Tidings.Binary64.Shortest
/-!
Compact JSON text. No space stands between the parts; a string escapes the quote, the backslash and
the characters below the space, and keeps every other character as it is.
-/
namespace Tidings.Json

def escape (c : Char) : List Char :=
  if c = '"' then ['\\', '"']
  else if c = '\\' then ['\\', '\\']
  else if c = '\x08' then ['\\', 'b']
  else if c = '\x0c' then ['\\', 'f']
  else if c = '\n' then ['\\', 'n']
  else if c = '\r' then ['\\', 'r']
  else if c = '\t' then ['\\', 't']
  else if c.toNat < 32 then
    ['\\', 'u', '0', '0', Nat.digitChar (c.toNat / 16), Nat.digitChar (c.toNat % 16)]
  else [c]

def quoted (s : String) : List Char :=
  '"' :: (s.toList.flatMap escape ++ ['"'])

def Number.render : Number → List Char
  | .int i => if i < 0 then '-' :: Nat.toDigits 10 i.natAbs else Nat.toDigits 10 i.natAbs
  | .real x => x.render

mutual
def Value.render : Value → List Char
  | .null => ['n', 'u', 'l', 'l']
  | .bool true => ['t', 'r', 'u', 'e']
  | .bool false => ['f', 'a', 'l', 's', 'e']
  | .num n => n.render
  | .str s => quoted s
  | .arr items => '[' :: renderItems items
  | .obj members => '{' :: renderMembers members

def Value.renderItems : List Value → List Char
  | [] => [']']
  | [v] => v.render ++ [']']
  | v :: w :: rest => v.render ++ ',' :: Value.renderItems (w :: rest)

def Value.renderMembers : List (String × Value) → List Char
  | [] => ['}']
  | [(k, v)] => quoted k ++ ':' :: (v.render ++ ['}'])
  | (k, v) :: m :: rest => quoted k ++ ':' :: (v.render ++ ',' :: Value.renderMembers (m :: rest))
end

def Value.text (v : Value) : String :=
  String.ofList v.render

end Tidings.Json
