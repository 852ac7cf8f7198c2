import TemplateContracts.Json.Decode
import TemplateContracts.Json.Parser

/-!
# Configuration

Which inspections are enabled, and which variables exist everywhere.
-/

namespace TemplateContracts

/-- A check that can be switched off. -/
inductive Inspection where
  | invalidTypes
  | invalidDotOperation
  /-- Attach guards to `types` statements. -/
  | typeAssertions
  | invalidConstant
  | invalidEnumCase
  | badArgumentCount
  | invalidNamedArgument
  | positionalAfterNamed
  | requiredAfterOptional
  | undeclaredVariableInMacro
  | unknownMacro
  deriving DecidableEq, Repr, Inhabited

namespace Inspection

/-- Every inspection, in order. -/
def all : List Inspection :=
  [invalidTypes, invalidDotOperation, typeAssertions, invalidConstant, invalidEnumCase,
    badArgumentCount, invalidNamedArgument, positionalAfterNamed, requiredAfterOptional,
    undeclaredVariableInMacro, unknownMacro]

/-- The name of an inspection. -/
def text : Inspection → String
  | invalidTypes => "invalid_types"
  | invalidDotOperation => "invalid_dot_operation"
  | typeAssertions => "type_assertions"
  | invalidConstant => "invalid_constant"
  | invalidEnumCase => "invalid_enum_case"
  | badArgumentCount => "bad_argument_count"
  | invalidNamedArgument => "invalid_named_argument"
  | positionalAfterNamed => "positional_after_named"
  | requiredAfterOptional => "required_after_optional"
  | undeclaredVariableInMacro => "undeclared_variable_in_macro"
  | unknownMacro => "unknown_macro"

/-- Reads an inspection. -/
def ofJson? (j : Json) : Option Inspection := j.oneOf? text all

end Inspection

/-- A configuration; by default every inspection is enabled and there are no global variables. -/
structure Config where
  isEnabled : Inspection → Bool := fun _ => true
  globals : List String := []
  deriving Inhabited

namespace Config

/-- Only the listed inspections. -/
def only (inspections : List Inspection) : Config := { isEnabled := inspections.contains }

/-- The same configuration without an inspection. -/
def without (c : Config) (i : Inspection) : Config :=
  { c with isEnabled := fun j => j != i && c.isEnabled j }

/-- The same configuration with one more global variable. -/
def withGlobal (c : Config) (name : String) : Config := { c with globals := c.globals ++ [name] }

/-- Whether a variable exists everywhere. -/
def isGlobal (c : Config) (name : String) : Bool := c.globals.contains name

/-- The enabled inspections, in order. -/
def inspections (c : Config) : List Inspection := Inspection.all.filter c.isEnabled

/-- The JSON form of a configuration. -/
def toJson (c : Config) : Json :=
  .object [("inspections", .list (fun i => .string i.text) c.inspections),
    ("globals", .strings c.globals)]

/-- Why a configuration is refused. -/
inductive Error where
  /-- Not the JSON form of a configuration. -/
  | malformed
  | notAnObject
  deriving DecidableEq, Repr

/-- The refusal in words; a malformed configuration has no words of its own. -/
def Error.message? : Error → Option String
  | malformed => none
  | notAnObject => some "analyzer configuration must be a JSON object"

/-- Reads a configuration from the record of its fields. -/
def ofRecord? (j : Json) : Option Config := do
  let r ← j.record? ["inspections", "globals"]
  let inspections ← (r "inspections").withDefault (Json.list? Inspection.ofJson?) Inspection.all
  let globals ← (r "globals").withDefault Json.strings? []
  return { only inspections with globals }

/-- Reads a configuration from an object in canonical form. -/
def ofJson (j : Json) : Except Error Config :=
  match j with
  | .object _ =>
    match ofRecord? j with
    | some c => .ok c
    | none => .error .malformed
  | _ => .error .notAnObject

/-- Reads a configuration from JSON text; of repeated keys the last counts. -/
def ofText (text : String) : Except Error Config :=
  match Json.read? text with
  | some j => ofJson j
  | none => .error .malformed

end Config

end TemplateContracts
