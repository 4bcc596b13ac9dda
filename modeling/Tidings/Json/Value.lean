import Tidings.Binary64
/-!
JSON values. An object is its list of members in the order in which they are written; a payload keeps
its members sorted by key, which `Members.insert` maintains.
-/
namespace Tidings.Json

/-- A whole number of 64 bits with or without sign, or a double. -/
inductive Number where
  | int (value : Int)
  | real (value : Binary64)
deriving DecidableEq, Repr

inductive Value where
  | null
  | bool (b : Bool)
  | num (n : Number)
  | str (s : String)
  | arr (items : List Value)
  | obj (members : List (String × Value))
deriving BEq, Repr, Inhabited

abbrev Members := List (String × Value)

/-- Puts a member in its place in byte order, over an earlier one of the same key. -/
def Members.insert (key : String) (value : Value) : Members → Members
  | [] => [(key, value)]
  | (k, v) :: rest =>
    if key = k then (key, value) :: rest
    else if key < k then (key, value) :: (k, v) :: rest
    else (k, v) :: Members.insert key value rest

/-- The sorted members of a list in which the last one of a key wins. -/
def Members.ofList (members : Members) : Members :=
  members.foldl (fun sorted m => sorted.insert m.1 m.2) []

def Members.get? (members : Members) (key : String) : Option Value :=
  List.lookup key members

theorem Members.get?_cons (key other : String) (value : Value) (members : Members) :
    Members.get? ((key, value) :: members) other =
      if other = key then some value else members.get? other := by
  by_cases h : other = key
  · simp [get?, h]
  · have : (other == key) = false := beq_eq_false_iff_ne.2 h
    rw [get?, List.lookup_cons, this, if_neg h]
    rfl

theorem Members.get?_insert (members : Members) (key other : String) (value : Value) :
    (members.insert key value).get? other = if other = key then some value else members.get? other := by
  induction members with
  | nil => exact get?_cons key other value []
  | cons m rest ih =>
    obtain ⟨k, v⟩ := m
    unfold insert
    split
    · next h => subst h; simp only [get?_cons]; split <;> rfl
    · split
      · exact get?_cons key other value ((k, v) :: rest)
      · next h _ =>
        simp only [get?_cons, ih]
        by_cases hk : other = key
        · have : ¬ other = k := fun e => h (hk.symm.trans e)
          simp [hk, h]
        · simp [hk]

def Value.nat (n : Nat) : Value := .num (.int n)

def Value.int (n : Int) : Value := .num (.int n)

def Value.ofOption {α : Type} (f : α → Value) : Option α → Value
  | none => .null
  | some a => f a

/-- A member of an object, `null` if it has none or the value is no object. -/
def Value.member (v : Value) (key : String) : Value :=
  match v with
  | .obj members => (Members.get? members key).getD .null
  | _ => .null

end Tidings.Json
