import TemplateContracts.Location

/-!
# Findings

A `Diagnostic` is one finding of an analysis or of a render-time guard: a numeric code, how serious
it is, the category of its code, a message and a place.  `Diagnostics` is an append-only collection
that counts errors and other findings as they come in.
-/

namespace TemplateContracts

/-- How serious a finding is.  Only an error blocks. -/
inductive Severity where
  | error
  | warning
  | deprecation
  deriving DecidableEq, Repr, Inhabited

/-- What a finding is about. -/
inductive Category where
  | type
  | macros
  | scope
  | access
  | imports
  | guard
  deriving DecidableEq, Repr, Inhabited

/-- The number of a kind of finding. -/
structure Code where
  number : UInt16
  deriving DecidableEq, Repr, Inhabited

namespace Severity

/-- The name of a severity. -/
def text : Severity → String
  | error => "error"
  | warning => "warning"
  | deprecation => "deprecation"

/-- Every severity. -/
def all : List Severity := [error, warning, deprecation]

end Severity

namespace Category

/-- The name of a category. -/
def text : Category → String
  | type => "type"
  | macros => "macro"
  | scope => "scope"
  | access => "access"
  | imports => "import"
  | guard => "guard"

/-- Every category. -/
def all : List Category := [type, macros, scope, access, imports, guard]

end Category

namespace Code

/-! ### Declared types -/

def invalidTypeSyntax : Code := ⟨100⟩
def deprecatedType : Code := ⟨101⟩
def unknownType : Code := ⟨102⟩

/-! ### Macros -/

def unknownMacro : Code := ⟨200⟩
def tooManyArguments : Code := ⟨201⟩
def tooFewArguments : Code := ⟨202⟩
def invalidNamedArgument : Code := ⟨203⟩
def positionalAfterNamed : Code := ⟨204⟩
def requiredAfterOptional : Code := ⟨205⟩

/-! ### Scope -/

def undeclaredVariable : Code := ⟨300⟩

/-! ### Member access -/

def invalidAttributeAccess : Code := ⟨400⟩
def invalidEnumCase : Code := ⟨401⟩
def invalidConstant : Code := ⟨402⟩

/-! ### Imports -/

def unresolvedImport : Code := ⟨500⟩

/-! ### Render-time guards -/

def missingVariable : Code := ⟨600⟩
def nullVariable : Code := ⟨601⟩
def typeMismatch : Code := ⟨602⟩

/-- The category of a code is given by its hundred; codes outside every hundred are about types. -/
def category (c : Code) : Category :=
  match c.number.toNat / 100 with
  | 2 => .macros
  | 3 => .scope
  | 4 => .access
  | 5 => .imports
  | 6 => .guard
  | _ => .type

/-- `Q` and the number. -/
def text (c : Code) : String := "Q" ++ toString c.number.toNat

end Code

/-- A finding. -/
structure Diagnostic where
  code : Code
  severity : Severity
  category : Category
  message : String
  location : Location
  deriving DecidableEq, Repr, Inhabited

namespace Diagnostic

/-- A finding in the category of its code. -/
def ofCode (severity : Severity) (code : Code) (message : String) (location : Location) :
    Diagnostic :=
  { code, severity, category := code.category, message, location }

/-- An error. -/
def error (code : Code) (message : String) (location : Location) : Diagnostic :=
  ofCode .error code message location

/-- A warning. -/
def warning (code : Code) (message : String) (location : Location) : Diagnostic :=
  ofCode .warning code message location

/-- A deprecation. -/
def deprecation (code : Code) (message : String) (location : Location) : Diagnostic :=
  ofCode .deprecation code message location

/-- Whether a finding blocks. -/
def isError (d : Diagnostic) : Bool := d.severity == .error

/-- The place, the code, the category and the message on one line. -/
def text (d : Diagnostic) : String :=
  d.location.text ++ ": " ++ d.code.text ++ " [" ++ d.category.text ++ "] " ++ d.message

end Diagnostic

/-- Findings in the order they were reported, and how many of them block. -/
structure Diagnostics where
  entries : List Diagnostic := []
  totalErrors : Nat := 0
  totalWarnings : Nat := 0
  deriving DecidableEq, Repr, Inhabited

namespace Diagnostics

/-- No findings. -/
def empty : Diagnostics := {}

/-- Appends a finding. -/
def push (ds : Diagnostics) (d : Diagnostic) : Diagnostics :=
  { entries := ds.entries ++ [d]
    totalErrors := if d.isError then ds.totalErrors + 1 else ds.totalErrors
    totalWarnings := if d.isError then ds.totalWarnings else ds.totalWarnings + 1 }

/-- Appends findings one by one. -/
def append (ds : Diagnostics) (more : List Diagnostic) : Diagnostics := more.foldl push ds

theorem entries_append (ds : Diagnostics) (more : List Diagnostic) :
    (ds.append more).entries = ds.entries ++ more := by
  induction more generalizing ds with
  | nil => exact (List.append_nil _).symm
  | cons d rest ih =>
    show ((ds.push d).append rest).entries = _
    rw [ih, push, List.append_assoc, List.singleton_append]

/-- The collection of a list of findings. -/
def ofList (entries : List Diagnostic) : Diagnostics := empty.append entries

@[simp] theorem entries_ofList (entries : List Diagnostic) : (ofList entries).entries = entries :=
  entries_append empty entries

/-- Whether any finding blocks. -/
def hasErrors (ds : Diagnostics) : Bool := 0 < ds.totalErrors

/-- The findings that block. -/
def errors (ds : Diagnostics) : List Diagnostic := ds.entries.filter (·.isError)

/-- The findings that do not block. -/
def warnings (ds : Diagnostics) : List Diagnostic := ds.entries.filter (!·.isError)

/-- The findings with a code, in order. -/
def withCode (ds : Diagnostics) (c : Code) : List Diagnostic := ds.entries.filter (·.code == c)

/-- The messages, in order. -/
def messages (ds : Diagnostics) : List String := ds.entries.map (·.message)

end Diagnostics

end TemplateContracts
