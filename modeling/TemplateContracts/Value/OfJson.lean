import TemplateContracts.Json.Basic
import TemplateContracts.Value.Basic

/-!
# Runtime values from JSON

Objects and arrays both become arrays; an integer that needs more than sixty-three bits becomes a
double.
-/

namespace TemplateContracts

/-- The value of a number. -/
def Value.ofNumber : Json.Number → Value
  | .int i =>
    if Int64.minValue.toInt ≤ i ∧ i ≤ Int64.maxValue.toInt then .int (Int64.ofInt i)
    else .float (Binary64.ofInt i)
  | .float x => .float x

mutual

/-- The runtime value of a JSON value. -/
def Value.ofJson : Json → Value
  | .null => .null
  | .bool b => .bool b
  | .number n => .ofNumber n
  | .string s => .string s
  | .array items => .list (Value.itemsOfJson items)
  | .object members => .array (Value.entriesOfJson members)
  | .unreadable => .null

/-- The runtime values of the items of an array. -/
def Value.itemsOfJson : List Json → List Value
  | [] => []
  | j :: rest => Value.ofJson j :: Value.itemsOfJson rest

/-- The entries that the members of an object become. -/
def Value.entriesOfJson : List (String × Json) → List (Key × Value)
  | [] => []
  | (k, j) :: rest => (.ofString k, Value.ofJson j) :: Value.entriesOfJson rest

end

/-- The context that a JSON object gives; anything else gives none. -/
def Context.ofJson : Json → Context
  | .object members => members.map fun (name, j) => (name, Value.ofJson j)
  | _ => []

end TemplateContracts
