import TemplateContracts.Analysis.Event
import TemplateContracts.Template.Stmt
import TemplateContracts.TypeExpr.Matching
import TemplateContracts.TypeExpr.Parser

/-!
# Guards at render time

Every guard runs against the context; each failure is one error.  A type that cannot be read was
reported where it is declared, and accepts everything.
-/

namespace TemplateContracts

namespace Guard

/-- The code of the failure of a guard, given the value of its variable; none if it holds. -/
def failure? (t : ClassTable) (check : GuardCheck) (value : Option Value) : Option Code :=
  match check, value with
  | .isSet, none => some .missingVariable
  | .notNull, some .null => some .nullVariable
  | .hasType typeText, some v =>
    if v.isNull || (TypeExpr.parse? typeText).all (·.accepts t v) then none else some .typeMismatch
  | _, _ => none

/-- What a failed guard says. -/
def message (g : Guard) : String :=
  match g.check with
  | .isSet => "Non-optional variable '" ++ g.variableName ++ "' is not set"
  | .notNull => "Non-nullable variable '" ++ g.variableName ++ "' is null"
  | .hasType _ => "Type for variable '" ++ g.variableName ++ "' does not match"

/-- The failure of a guard in a context: what is logged and what is found. -/
def run (t : ClassTable) (context : Context) (place : Location) (g : Guard) :
    Option (Event × Diagnostic) :=
  let value := context.get? g.variableName
  (failure? t g.check value).map fun code =>
    (.guardFailed g.variableName code ((value.map (·.typeName)).getD "unset"),
      .error code g.message place)

/-- The failures of guards in a context, in order. -/
def runAll (t : ClassTable) (context : Context) (place : Location) (guards : List Guard) :
    List (Event × Diagnostic) :=
  guards.filterMap (run t context place)

/-- The findings of guards in a context, in order. -/
def evaluate (t : ClassTable) (context : Context) (place : Location) (guards : List Guard) :
    List Diagnostic :=
  (runAll t context place guards).map Prod.snd

end Guard

namespace Template

/-- The failures of the guards at the top level of a template, in order. -/
def runGuards (t : ClassTable) (context : Context) (template : Template) :
    List (Event × Diagnostic) :=
  template.body.flatMap fun
    | .guarded a guards => Guard.runAll t context (a.span.inTemplate template.name) guards
    | _ => []

/-- The findings of the guards at the top level of a template. -/
def checkGuards (t : ClassTable) (context : Context) (template : Template) : Diagnostics :=
  .ofList ((template.runGuards t context).map Prod.snd)

end Template

end TemplateContracts
