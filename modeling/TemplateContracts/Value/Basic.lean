import TemplateContracts.Assoc
import TemplateContracts.Binary64.Basic

/-!
# Runtime values

The values that a template is rendered with.  An array is an ordered map; an object may be
traversable.  A string key that spells an integer in its usual form is that integer.
-/

namespace TemplateContracts

/-- The key of an array entry. -/
inductive Key where
  | int (i : Int64)
  | str (s : String)
  deriving DecidableEq, Repr, Inhabited

namespace Key

/-- Digits without a superfluous zero in front. -/
def isCanonicalNat : List Char → Bool
  | [] => false
  | ['0'] => true
  | c :: cs => c != '0' && (c :: cs).all Char.isDigit

/-- The number that digits spell. -/
def natOfDigits (ds : List Char) : Nat := ds.foldl (fun n c => 10 * n + (c.toNat - '0'.toNat)) 0

/-- The integer whose usual decimal form a text is. -/
def canonicalInt? : List Char → Option Int
  | '-' :: ds => if isCanonicalNat ds && ds != ['0'] then some (-(natOfDigits ds : Int)) else none
  | ds => if isCanonicalNat ds then some (natOfDigits ds) else none

/-- The key of a text: an integer if the text is the usual form of one with sixty-four bits. -/
def ofString (s : String) : Key :=
  match canonicalInt? s.toList with
  | some i =>
    if Int64.minValue.toInt ≤ i ∧ i ≤ Int64.maxValue.toInt then .int (Int64.ofInt i) else .str s
  | none => .str s

/-- A key as text. -/
def text : Key → String
  | .int i => toString i.toInt
  | .str s => s

/-- Integers come before strings, each in its own order. -/
def le : Key → Key → Bool
  | .int i, .int j => i.toInt ≤ j.toInt
  | .int _, .str _ => true
  | .str _, .int _ => false
  | .str s, .str t => !(t < s)

end Key

/-- A runtime value. -/
inductive Value where
  | null
  | bool (b : Bool)
  | int (i : Int64)
  | float (x : Binary64)
  | string (s : String)
  /-- An ordered map; a list has the keys zero, one and so on. -/
  | array (entries : List (Key × Value))
  /-- An instance of a class that cannot be iterated over. -/
  | object (className : String)
  /-- An instance of a class that can be iterated over. -/
  | traversable (className : String) (entries : List (Key × Value))
  deriving Repr, Inhabited

/-- The variables that a template is rendered with. -/
abbrev Context := Assoc Value

namespace Value

/-- Numbers the items of a list from `n` on. -/
def numbered (n : Nat) : List Value → List (Key × Value)
  | [] => []
  | v :: rest => (.int (Int64.ofNat n), v) :: numbered (n + 1) rest

/-- An array with the keys zero, one and so on. -/
def list (items : List Value) : Value := .array (numbered 0 items)

def isNull : Value → Bool
  | .null => true
  | _ => false

/-- What a value can be iterated over, if it can. -/
def entries? : Value → Option (List (Key × Value))
  | .array entries => some entries
  | .traversable _ entries => some entries
  | _ => none

def isIterable (v : Value) : Bool := v.entries?.isSome

/-- The class of an object. -/
def className? : Value → Option String
  | .object c => some c
  | .traversable c _ => some c
  | _ => none

/-- A short name of a value's type. -/
def typeName : Value → String
  | .null => "null"
  | .bool _ => "bool"
  | .int _ => "int"
  | .float _ => "float"
  | .string _ => "string"
  | .array _ => "array"
  | .object c => c
  | .traversable c _ => c

end Value

/-- A key as a value. -/
def Key.toValue : Key → Value
  | .int i => .int i
  | .str s => .string s

end TemplateContracts
