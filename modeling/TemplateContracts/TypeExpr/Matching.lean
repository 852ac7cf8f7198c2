import TemplateContracts.ClassTable.Hierarchy
import TemplateContracts.TypeExpr.Basic
import TemplateContracts.Value.Basic

/-!
# Values and declared types

Which runtime values have a declared type, given what is known about classes.
-/

namespace TemplateContracts

/-- Whether a value has a basic type.  An object that converts to text counts as a string. -/
def BasicType.accepts (t : ClassTable) : BasicType → Value → Bool
  | string, v =>
    match v with
    | .string _ => true
    | v => v.className?.any t.isStringable
  | number, v =>
    match v with
    | .int _ | .float _ => true
    | _ => false
  | boolean, v =>
    match v with
    | .bool _ => true
    | _ => false
  | null, v => v.isNull
  | object, v => v.className?.isSome
  | iterable, v => v.isIterable
  | mixed, _ => true

namespace TypeExpr

/-- Whether a value has a declared type. -/
def accepts (t : ClassTable) : TypeExpr → Value → Bool
  | .basic b, v => b.accepts t v
  | .nullable inner, v => v.isNull || accepts t inner v
  | .iterableOf value, v =>
    match v.entries? with
    | some entries => entries.all fun e => accepts t value e.2
    | none => false
  | .keyedIterable key value, v =>
    match v.entries? with
    | some entries => entries.all fun e => accepts t value e.2 && accepts t key e.1.toValue
    | none => false
  | .classRef name, v => v.className?.any fun c => t.isSubtype c name

/-- Whether every class that a type names is described. -/
def isKnown (t : ClassTable) (ty : TypeExpr) : Bool := ty.classRefs.all t.knows

end TypeExpr

end TemplateContracts
