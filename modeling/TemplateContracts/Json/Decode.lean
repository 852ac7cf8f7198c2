import TemplateContracts.Json.Basic

/-!
# From JSON to records and variants

A record is written as an object, or as the array of its fields in order.  In an object unknown keys
are ignored and a known key may stand only once.  A field may be left out of an object if it is
optional or has a default, and off the end of an array only if it has a default.

A variant without content is its name; any variant may be an object whose only key is its name.  The
fields that stand directly in a variant are an object; only where the value is read straight from
text may they be an array, as in a record.
-/

namespace TemplateContracts.Json

/-- What a record holds for one of its fields. -/
inductive Field where
  | given (j : Json)
  /-- An object without the key. -/
  | missing
  /-- An array that ends before the field. -/
  | cutOff

namespace Field

variable {α : Type}

/-- A field that has to be there. -/
def required (decode : Json → Option α) : Field → Option α
  | .given j => decode j
  | _ => none

/-- A field that may be `null`, and may be left out of an object. -/
def optional (decode : Json → Option α) : Field → Option (Option α)
  | .given .null => some none
  | .given j => (decode j).map some
  | .missing => some none
  | .cutOff => none

/-- A field with a default. -/
def withDefault (decode : Json → Option α) (default : α) : Field → Option α
  | .given j => decode j
  | _ => some default

end Field

/-- The value of the first member with a key. -/
def member? (key : String) : List (String × Json) → Option Json
  | [] => none
  | (k, j) :: rest => if k = key then some j else member? key rest

/-- Whether a key stands more than once. -/
def repeats (key : String) (members : List (String × Json)) : Bool :=
  1 < (members.filter fun m => m.1 == key).length

/-- The fields of a record with the given names. -/
def record? (names : List String) : Json → Option (String → Field)
  | .object members =>
    if names.any (repeats · members) then none
    else some fun name =>
      match member? name members with
      | some j => .given j
      | none => .missing
  | .array items =>
    if names.length < items.length then none
    else some fun name =>
      match member? name (names.zip items) with
      | some j => .given j
      | none => .cutOff
  | _ => none

/-- Where a value comes from. -/
inductive Origin where
  /-- Read straight from text. -/
  | text
  /-- Part of a tree that was read before. -/
  | tree
  deriving DecidableEq, Repr, Inhabited

/-- The fields with the given names that stand directly in a variant. -/
def fields? (origin : Origin) (names : List String) (j : Json) : Option (String → Field) :=
  match origin, j with
  | .tree, .array _ => none
  | _, j => j.record? names

/-- The name of a variant and its content, if it has any. -/
def variant? : Json → Option (String × Option Json)
  | .string name => some (name, none)
  | .object [(name, j)] => some (name, some j)
  | _ => none

/-- The content of a variant that has none: nothing, or `null`. -/
def noContent : Option Json → Option Unit
  | none => some ()
  | some .null => some ()
  | _ => none

/-- The variant without content whose name is written, among those of a list. -/
def oneOf? {α : Type} (name : α → String) (all : List α) (j : Json) : Option α := do
  let (written, content) ← variant? j
  noContent content
  all.find? fun a => name a == written

/-! ### Plain values -/

def string? : Json → Option String
  | .string s => some s
  | _ => none

def bool? : Json → Option Bool
  | .bool b => some b
  | _ => none

/-- An integer from zero up to, but not including, a bound. -/
def natBelow? (bound : Nat) : Json → Option Nat
  | .number (.int i) => if 0 ≤ i ∧ i < bound then some i.toNat else none
  | _ => none

/-- Any number, as a double. -/
def double? : Json → Option Binary64
  | .number n => some n.toDouble
  | _ => none

/-- The items of an array, each decoded. -/
def list? {α : Type} (decode : Json → Option α) : Json → Option (List α)
  | .array items => items.mapM decode
  | _ => none

def strings? : Json → Option (List String) := list? string?

end TemplateContracts.Json
