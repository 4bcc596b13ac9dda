import Tidings.Text.CaseTable
/-!
Lower case by the rules of Unicode, independent of language. One letter has a lower case of two
characters, and the Greek sigma has a form of its own at the end of a word.
-/
namespace Tidings.Text

def inRanges (ranges : List (Nat × Nat)) (c : Char) : Bool :=
  ranges.any fun r => r.1 ≤ c.toNat && c.toNat ≤ r.2

def isCased (c : Char) : Bool := inRanges casedRanges c

def isIgnorable (c : Char) : Bool := inRanges ignorableRanges c

def lowerChar (c : Char) : Char :=
  if c.toNat < 128 then c.toLower
  else
    match lowerRuns.find? fun (first, last, step, _) =>
        first ≤ c.toNat && c.toNat ≤ last && (c.toNat - first) % step == 0 with
    | some (_, _, _, distance) => Char.ofNat (c.toNat + distance).toNat
    | none => c

/-- Whether a cased character comes first in a text once the ignorable ones are left out. -/
def startsCased (cs : List Char) : Bool :=
  (cs.dropWhile isIgnorable).head?.any isCased

/-- Lower case of `cs`; `before` holds the characters in front of it, the nearest first. -/
def lowerFrom : List Char → List Char → List Char
  | _, [] => []
  | before, c :: cs =>
    let mapped :=
      if c = 'İ' then ['i', Char.ofNat 0x307]
      else if c = 'Σ' then
        if startsCased before ∧ ¬ startsCased cs then ['ς'] else ['σ']
      else [lowerChar c]
    mapped ++ lowerFrom (c :: before) cs

def lower (s : String) : String :=
  String.ofList (lowerFrom [] s.toList)

def lowerAscii (s : String) : String :=
  s.map Char.toLower

end Tidings.Text
