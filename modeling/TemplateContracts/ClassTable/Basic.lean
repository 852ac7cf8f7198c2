import TemplateContracts.Assoc

/-!
# What is known about classes

A `ClassTable` holds descriptions of classes, interfaces, traits and enumerations, and the names of
global constants.  Names of types are compared without leading backslashes and without regard to
ASCII case.
-/

namespace TemplateContracts

/-- What a described type is. -/
inductive TypeKind where
  | classType
  | interfaceType
  | traitType
  | enumType
  deriving DecidableEq, Repr, Inhabited

/-- Who may use a member. -/
inductive Visibility where
  | pub
  | prot
  | priv
  deriving DecidableEq, Repr, Inhabited

/-- A property or method. -/
structure Member where
  name : String
  visibility : Visibility := .pub
  deriving DecidableEq, Repr, Inhabited

/-- Whether anyone may use a member. -/
def Member.isPublic (m : Member) : Bool := m.visibility == .pub

/-- The description of a type. -/
structure TypeInfo where
  /-- The full name, usually without a leading backslash. -/
  name : String
  kind : TypeKind := .classType
  /-- The parent class and the implemented interfaces. -/
  parents : List String := []
  /-- The used traits. -/
  traits : List String := []
  properties : List Member := []
  /-- Properties that are documented but served by magic accessors. -/
  virtualProperties : List String := []
  methods : List Member := []
  /-- The cases of an enumeration. -/
  cases : List String := []
  constants : List String := []
  deriving DecidableEq, Repr, Inhabited

/-- A name without its leading backslashes. -/
def trimBackslashes (name : String) : String :=
  String.ofList (name.toList.dropWhile (· == '\\'))

/-- A text in ASCII lower case. -/
def lowercase (s : String) : String := String.ofList (s.toList.map Char.toLower)

/-- The key of a type name: no leading backslashes, lower case. -/
def normalizeTypeName (name : String) : String := lowercase (trimBackslashes name)

namespace TypeInfo

/-- A type of a kind, with nothing known about it. -/
def ofKind (kind : TypeKind) (name : String) : TypeInfo := { name := trimBackslashes name, kind }

/-- The types that a type inherits from, parents before traits. -/
def ancestors (t : TypeInfo) : List String := t.parents ++ t.traits

/-- The key that a type is stored under. -/
def key (t : TypeInfo) : String := normalizeTypeName t.name

def addParent (t : TypeInfo) (name : String) : TypeInfo :=
  { t with parents := t.parents ++ [trimBackslashes name] }

def addTrait (t : TypeInfo) (name : String) : TypeInfo :=
  { t with traits := t.traits ++ [trimBackslashes name] }

def addProperty (t : TypeInfo) (m : Member) : TypeInfo :=
  { t with properties := t.properties ++ [m] }

def addVirtualProperty (t : TypeInfo) (name : String) : TypeInfo :=
  { t with virtualProperties := t.virtualProperties ++ [name] }

def addMethod (t : TypeInfo) (m : Member) : TypeInfo := { t with methods := t.methods ++ [m] }

def addConstant (t : TypeInfo) (name : String) : TypeInfo :=
  { t with constants := t.constants ++ [name] }

theorem keyed_nil : ∀ p ∈ ([] : Assoc TypeInfo), p.1 = p.2.key := List.forall_mem_nil _

end TypeInfo

/-- Described types under their keys, and global constants. -/
structure ClassTable where
  types : Assoc TypeInfo := []
  constants : List String := []
  /-- Every type is stored under its own key. -/
  keyed : ∀ p ∈ types, p.1 = p.2.key := by exact TemplateContracts.TypeInfo.keyed_nil

instance : Inhabited ClassTable := ⟨{}⟩

/-- Splits a text at its first double colon. -/
def splitAtColons : List Char → Option (List Char × List Char)
  | ':' :: ':' :: rest => some ([], rest)
  | c :: rest => (splitAtColons rest).map fun (before, after) => (c :: before, after)
  | [] => none

namespace ClassTable

/-- Nothing known. -/
def empty : ClassTable := {}

/-- The description of a type. -/
def describe? (t : ClassTable) (name : String) : Option TypeInfo :=
  t.types.get? (normalizeTypeName name)

/-- Whether a type is described. -/
def knows (t : ClassTable) (name : String) : Bool := (t.describe? name).isSome

/-- Adds a description, in place of an earlier one of the same type. -/
def insert (t : ClassTable) (info : TypeInfo) : ClassTable :=
  { t with
    types := t.types.set info.key info
    keyed := fun p hp => (Assoc.mem_set hp).elim (fun h => h ▸ rfl) (t.keyed p) }

/-- Adds a global constant. -/
def addConstant (t : ClassTable) (name : String) : ClassTable :=
  { t with constants := t.constants ++ [name] }

/-- How many types are described. -/
def size (t : ClassTable) : Nat := t.types.length

/-- The cases of a known enumeration. -/
def enumCases? (t : ClassTable) (name : String) : Option (List String) :=
  ((t.describe? name).filter fun info => info.kind == .enumType).map (·.cases)

/-- Whether a constant exists: `Class::NAME` as a constant or case of a described type, any other
name as a global constant. -/
def hasConstant (t : ClassTable) (name : String) : Bool :=
  match splitAtColons name.toList with
  | some (className, constant) =>
    match t.describe? (String.ofList className) with
    | some info =>
      info.constants.contains (String.ofList constant) ||
        info.cases.contains (String.ofList constant)
    | none => false
  | none => t.constants.contains (trimBackslashes name)

end ClassTable

end TemplateContracts
