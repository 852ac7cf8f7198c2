import TemplateContracts.ClassTable.Hierarchy
import TemplateContracts.Template.Expr
import TemplateContracts.TypeExpr.Basic

/-!
# Access to attributes

Whether an attribute of a declared type can be read, and whether an enumeration has a case.  Only
scalars and described classes are ever refused.
-/

namespace TemplateContracts

/-- Why an access is refused. -/
inductive AccessError where
  | unsupportedType (typeText : String)
  | invalidAttribute (attr typeText : String)
  | invalidEnumCase (case : String)
  deriving DecidableEq, Repr, Inhabited

/-- The refusal in words, without a place. -/
def AccessError.message : AccessError → String
  | unsupportedType typeText => "Invalid dot operation on unsupported type '" ++ typeText ++ "'"
  | invalidAttribute attr typeText =>
    "Invalid attribute '" ++ attr ++ "' for type '" ++ typeText ++ "'"
  | invalidEnumCase case => "Invalid enum case '" ++ case ++ "'"

namespace ClassTable

/-- The methods that can serve an attribute, in the order they are tried. -/
def accessors (attr : String) : List String := [attr, "get" ++ attr, "is" ++ attr, "has" ++ attr]

/-- Whether a class has a readable attribute: a public property or a virtual one, unless a method is
called; or a public method, the first that exists among the accessors. -/
def hasAttribute (t : ClassTable) (className attr : String) (access : AccessKind) : Bool :=
  (access != .method &&
    ((t.findProperty? className attr).any (·.isPublic) || t.hasVirtualProperty className attr)) ||
  ((accessors attr).findSome? (t.findMethod? className)).any (·.isPublic)

/-- Why an attribute of a declared type cannot be read, if it cannot. -/
def accessError? (t : ClassTable) (declared : TypeExpr) (attr : String) (access : AccessKind) :
    Option AccessError :=
  if access = .array then none
  else
    let ty := declared.nonNull
    if ty.isScalar then some (.unsupportedType ty.text)
    else
      match ty with
      | .classRef c =>
        if t.knows c && !t.hasAttribute c attr access then some (.invalidAttribute attr ty.text)
        else none
      | _ => none

/-- Why a case of an enumeration cannot be read, if it cannot; `cases` always can. -/
def enumCaseError? (t : ClassTable) (enumName case : String) : Option AccessError :=
  if case = "cases" then none
  else
    match t.enumCases? enumName with
    | some cases => if cases.contains case then none else some (.invalidEnumCase case)
    | none => none

end ClassTable

end TemplateContracts
