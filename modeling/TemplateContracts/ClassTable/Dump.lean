import TemplateContracts.ClassTable.Basic
import TemplateContracts.Json.Decode
import TemplateContracts.Json.Parser

/-!
# Class tables from JSON

A dump is a record with the described types and the global constants.  It is loaded as a whole or
not at all: a type that is described twice spoils it.
-/

namespace TemplateContracts

namespace TypeKind

/-- The name of a kind. -/
def text : TypeKind → String
  | classType => "class"
  | interfaceType => "interface"
  | traitType => "trait"
  | enumType => "enum"

/-- Every kind. -/
def all : List TypeKind := [classType, interfaceType, traitType, enumType]

end TypeKind

namespace Visibility

/-- The name of a visibility. -/
def text : Visibility → String
  | pub => "public"
  | prot => "protected"
  | priv => "private"

/-- Every visibility. -/
def all : List Visibility := [pub, prot, priv]

end Visibility

namespace Member

/-- The JSON form of a member. -/
def toJson (m : Member) : Json :=
  .object [("name", .string m.name), ("visibility", .string m.visibility.text)]

/-- Reads a member; it is public unless it says otherwise. -/
def ofJson? (j : Json) : Option Member := do
  let r ← j.record? ["name", "visibility"]
  let name ← (r "name").required Json.string?
  let visibility ← (r "visibility").withDefault (Json.oneOf? Visibility.text Visibility.all) .pub
  return { name, visibility }

end Member

namespace TypeInfo

/-- The JSON form of a description. -/
def toJson (t : TypeInfo) : Json :=
  .object [("name", .string t.name), ("kind", .string t.kind.text), ("parents", .strings t.parents),
    ("traits", .strings t.traits), ("properties", .list Member.toJson t.properties),
    ("virtual_properties", .strings t.virtualProperties),
    ("methods", .list Member.toJson t.methods),
    ("cases", .strings t.cases), ("constants", .strings t.constants)]

/-- Reads a description; all but the name may be left out. -/
def ofJson? (j : Json) : Option TypeInfo := do
  let r ← j.record? ["name", "kind", "parents", "traits", "properties", "virtual_properties",
    "methods", "cases", "constants"]
  let name ← (r "name").required Json.string?
  let kind ← (r "kind").withDefault (Json.oneOf? TypeKind.text TypeKind.all) .classType
  let parents ← (r "parents").withDefault Json.strings? []
  let traits ← (r "traits").withDefault Json.strings? []
  let properties ← (r "properties").withDefault (Json.list? Member.ofJson?) []
  let virtualProperties ← (r "virtual_properties").withDefault Json.strings? []
  let methods ← (r "methods").withDefault (Json.list? Member.ofJson?) []
  let cases ← (r "cases").withDefault Json.strings? []
  let constants ← (r "constants").withDefault Json.strings? []
  return { name, kind, parents, traits, properties, virtualProperties, methods, cases, constants }

end TypeInfo

namespace ClassTable

/-- Why a dump is not loaded. -/
inductive DumpError where
  /-- Not the JSON form of a dump. -/
  | malformed
  /-- A type is described more than once. -/
  | duplicate (name : String)
  deriving DecidableEq, Repr

/-- A duplicate in words; a malformed dump has no words of its own. -/
def DumpError.message? : DumpError → Option String
  | malformed => none
  | duplicate name => some ("type '" ++ name ++ "' is described more than once")

/-- Described types and global constants, as listed. -/
structure Dump where
  types : List TypeInfo
  constants : List String

/-- Reads a dump; both lists may be left out. -/
def Dump.ofJson? (j : Json) : Option Dump := do
  let r ← j.record? ["types", "constants"]
  let types ← (r "types").withDefault (Json.list? TypeInfo.ofJson?) []
  let constants ← (r "constants").withDefault Json.strings? []
  return { types, constants }

/-- Adds descriptions one by one, until one repeats a type. -/
def addAll (t : ClassTable) : List TypeInfo → Except DumpError ClassTable
  | [] => .ok t
  | info :: rest =>
    if t.types.has info.key then .error (.duplicate info.name) else (t.insert info).addAll rest

/-- The table of a dump. -/
def ofDump (d : Dump) : Except DumpError ClassTable :=
  (empty.addAll d.types).map fun t => { t with constants := d.constants }

/-- The table of a dump in JSON. -/
def ofJson (j : Json) : Except DumpError ClassTable :=
  match Dump.ofJson? j with
  | some d => ofDump d
  | none => .error .malformed

/-- The table of a dump in JSON text. -/
def ofText (text : String) : Except DumpError ClassTable :=
  match Json.parse? text with
  | some j => ofJson j
  | none => .error .malformed

end ClassTable

end TemplateContracts
