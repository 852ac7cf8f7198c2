import TemplateContracts.Binary64.Rounding

/-!
# JSON values

Members of an object keep their order and may repeat a key: which repetitions are allowed is the
reader's decision.  A number is an integer or a double, told apart by how it is written.

A text may be well formed and still hold something that has no value here: a number beyond the
range, a string with half of a surrogate pair, brackets nested too deep.  Such a part is
`unreadable`.  It does no harm inside a member that nobody asks for, and spoils everything else.
-/

namespace TemplateContracts

/-- A number as written: `int` for integers within sixty-four bits, signed or unsigned. -/
inductive Json.Number where
  | int (i : Int)
  | float (x : Binary64)
  deriving DecidableEq, Repr

/-- The double nearest to a number. -/
def Json.Number.toDouble : Json.Number → Binary64
  | .int i => Binary64.ofInt i
  | .float x => x

/-- A JSON value. -/
inductive Json where
  | null
  | bool (b : Bool)
  | number (n : Json.Number)
  | string (s : String)
  | array (items : List Json)
  | object (members : List (String × Json))
  /-- Well-formed text without a value. -/
  | unreadable
  deriving Repr, Inhabited

namespace Json

/-- An integer. -/
def int (i : Int) : Json := .number (.int i)

/-- A natural number. -/
def nat (n : Nat) : Json := .number (.int n)

/-- A double; one that is not finite has no JSON form and becomes `null`. -/
def double (x : Binary64) : Json := if x.isFinite then .number (.float x) else .null

/-- A value or `null`. -/
def option {α : Type} (encode : α → Json) : Option α → Json
  | none => .null
  | some a => encode a

/-- A list of values. -/
def list {α : Type} (encode : α → Json) (items : List α) : Json := .array (items.map encode)

/-- A list of strings. -/
def strings (items : List String) : Json := list .string items

mutual

/-- The greatest number of brackets open at once. -/
def depth : Json → Nat
  | .array items => itemsDepth items + 1
  | .object members => membersDepth members + 1
  | _ => 0

/-- The depth of the deepest item. -/
def itemsDepth : List Json → Nat
  | [] => 0
  | j :: rest => max (depth j) (itemsDepth rest)

/-- The depth of the deepest member. -/
def membersDepth : List (String × Json) → Nat
  | [] => 0
  | (_, j) :: rest => max (depth j) (membersDepth rest)

end

/-- Puts a member among members sorted by key, in place of one with the same key. -/
def insertMember (key : String) (value : Json) : List (String × Json) → List (String × Json)
  | [] => [(key, value)]
  | (k, v) :: rest =>
    if k = key then (key, value) :: rest
    else if key < k then (key, value) :: (k, v) :: rest
    else (k, v) :: insertMember key value rest

mutual

/-- The value that a tree stands for on its own: members sorted by key, of repeated keys the last;
nothing if any part is unreadable. -/
def canonical? : Json → Option Json
  | .array items => (canonicalItems? items).map .array
  | .object members => (canonicalMembers? members []).map .object
  | .unreadable => none
  | j => some j

/-- The items of an array, each on its own. -/
def canonicalItems? : List Json → Option (List Json)
  | [] => some []
  | j :: rest =>
    match canonical? j, canonicalItems? rest with
    | some j, some rest => some (j :: rest)
    | _, _ => none

/-- Puts the members of an object one by one among those already sorted. -/
def canonicalMembers? : List (String × Json) → List (String × Json) → Option (List (String × Json))
  | [], sorted => some sorted
  | (key, j) :: rest, sorted =>
    match canonical? j with
    | some j => canonicalMembers? rest (insertMember key j sorted)
    | none => none

end

end Json

end TemplateContracts
