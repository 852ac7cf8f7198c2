import TemplateContracts.Diagnostic.Basic
import TemplateContracts.Import.Loader
import TemplateContracts.TypeExpr.Parser

/-!
# The log of a run

What happens in a run, in order: templates entered, imports followed, findings reported.  The
findings of a run are what its log reports.
-/

namespace TemplateContracts

/-- How loud an event is. -/
inductive Level where
  | error
  | warn
  | info
  | debug
  | trace
  deriving DecidableEq, Repr, Inhabited

/-- Something that happens in a run. -/
inductive Event where
  /-- The analysis of a template begins, loaded by a name and with a path of its own. -/
  | entered (name path : String)
  /-- The macros of a template are counted. -/
  | collected (count : Nat)
  /-- An import whose template is computed. -/
  | dynamicImport (line : UInt32)
  /-- An import of a template whose analysis has not finished. -/
  | importCycle (template : String)
  /-- An import of a template analysed before. -/
  | cacheHit (template : String)
  /-- An import met for the first time. -/
  | loading (template : String)
  | loadFailed (template : String) (error : LoadError)
  /-- A declared type that cannot be read. -/
  | typeError (variableName : String) (error : TypeSyntaxError)
  /-- A call into an import that is out of sight. -/
  | hiddenCall (name : String)
  /-- The analysis of a root template is complete. -/
  | finished (template : String) (visited : Nat)
  | guardFailed (variableName : String) (code : Code) (actual : String)
  | reported (d : Diagnostic)
  deriving DecidableEq, Repr, Inhabited

namespace Level

/-- The name of a level. -/
def text : Level → String
  | error => "ERROR"
  | warn => "WARN"
  | info => "INFO"
  | debug => "DEBUG"
  | trace => "TRACE"

/-- The level of a finding. -/
def ofSeverity : Severity → Level
  | .error => error
  | .warning => warn
  | .deprecation => info

end Level

namespace Event

/-- How loud an event is. -/
def level : Event → Level
  | entered _ _ => .info
  | loading _ | finished _ _ => .debug
  | loadFailed _ _ => .warn
  | reported d => .ofSeverity d.severity
  | _ => .trace

/-- An event in words; entering a template is not put in words. -/
def message? : Event → Option String
  | entered _ _ => none
  | collected _ => some "collected macros"
  | dynamicImport _ => some "dynamic import, treated as opaque"
  | importCycle _ => some "import cycle, reusing published macros"
  | cacheHit _ => some "import cache hit"
  | loading _ => some "loading imported template"
  | loadFailed _ _ => some "import failed"
  | typeError _ _ => some "type syntax error"
  | hiddenCall _ => some "call into opaque import, skipped"
  | finished _ _ => some "analysis finished"
  | guardFailed _ _ _ => some "guard failed"
  | reported d => some d.message

/-- The particulars of an event. -/
def fields : Event → List (String × String)
  | entered name path => [("name", name), ("path", path)]
  | collected count => [("macros", toString count)]
  | dynamicImport line => [("line", toString line.toNat)]
  | importCycle template | cacheHit template | loading template => [("template", template)]
  | loadFailed template e => [("template", template), ("error", e.message)]
  | typeError variableName e => [("variable", variableName), ("error", e.message)]
  | hiddenCall name => [("name", name)]
  | finished template visited => [("template", template), ("visited", toString visited)]
  | guardFailed variableName code actual =>
    [("variable", variableName), ("code", code.text), ("actual", actual)]
  | reported d => [("code", d.code.text), ("location", d.location.text)]

/-- The finding that an event reports. -/
def finding? : Event → Option Diagnostic
  | reported d => some d
  | _ => none

/-- Whether an event reports a finding. -/
def isFinding (e : Event) : Bool := e.finding?.isSome

/-- The findings of a log, in order. -/
def findings (log : List Event) : List Diagnostic := log.filterMap finding?

@[simp] theorem findings_nil : findings [] = [] := rfl

@[simp] theorem findings_append (es es' : List Event) :
    findings (es ++ es') = findings es ++ findings es' :=
  List.filterMap_append

@[simp] theorem findings_map_reported (ds : List Diagnostic) : findings (ds.map reported) = ds := by
  induction ds with
  | nil => rfl
  | cons d rest ih =>
    show d :: findings (rest.map reported) = d :: rest
    rw [ih]

end Event

end TemplateContracts
