import TemplateContracts.Assoc
import TemplateContracts.Template.Stmt

/-!
# Macro signatures

What a call needs to know about a macro, and the table of the macros that a template declares.  A
macro whose body reads `varargs` takes any number of arguments.
-/

namespace TemplateContracts

/-- The variable through which a macro reads its surplus arguments. -/
def varargs : String := "varargs"

/-- A parameter as a call sees it. -/
structure ParamSignature where
  name : String
  /-- Whether it has no default. -/
  required : Bool
  deriving DecidableEq, Repr, Inhabited

/-- A macro as a call sees it. -/
structure Signature where
  name : String
  /-- The declared parameters; then an optional `varargs` if the body reads it. -/
  params : List ParamSignature
  acceptsVarargs : Bool
  deriving DecidableEq, Repr, Inhabited

namespace Signature

/-- Whether any expression in a body is the variable `varargs`. -/
def readsVarargs (body : List Stmt) : Bool :=
  (Stmt.bodyExprs body).any fun e => e.asName? == some varargs

/-- The declared parameters. -/
def declaredParams (params : List MacroParam) : List ParamSignature :=
  params.map fun p => ⟨p.name.name, p.default.isNone⟩

/-- The signature of a declaration. -/
def ofDecl (name : String) (params : List MacroParam) (body : List Stmt) : Signature :=
  let declared := declaredParams params
  let acceptsVarargs := readsVarargs body
  let implicit := acceptsVarargs && !declared.any (·.name == varargs)
  { name, acceptsVarargs, params := if implicit then declared ++ [⟨varargs, false⟩] else declared }

def paramCount (s : Signature) : Nat := s.params.length

def requiredCount (s : Signature) : Nat := s.params.countP (·.required)

/-- Whether a parameter can be passed by name; `varargs` cannot if the body reads it. -/
def declares (s : Signature) (name : String) : Bool :=
  s.params.any fun p => p.name == name && !(s.acceptsVarargs && p.name == varargs)

/-- The first required parameter behind an optional one. -/
def requiredAfterOptional? (s : Signature) : Option ParamSignature :=
  (s.params.dropWhile (·.required)).find? (·.required)

end Signature

/-- Macros under their names. -/
abbrev MacroTable := Assoc Signature

namespace Stmt

mutual

/-- The macros that a statement declares, at any depth outside of macro bodies, in order. -/
def signatures : Stmt → List Signature
  | macroDecl name params body _ => [.ofDecl name.name params body]
  | loop _ _ _ body orElse _ => bodySignatures body ++ bodySignatures orElse
  | branch branches orElse _ => branchesSignatures branches ++ bodySignatures orElse
  | _ => []

/-- The macros that statements declare. -/
def bodySignatures : List Stmt → List Signature
  | [] => []
  | s :: rest => signatures s ++ bodySignatures rest

/-- The macros that branches declare. -/
def branchesSignatures : List (Branch Stmt) → List Signature
  | [] => []
  | ⟨_, body⟩ :: rest => bodySignatures body ++ branchesSignatures rest

end

end Stmt

/-- The table of signatures; of those with the same name the first counts. -/
def MacroTable.ofSignatures (sigs : List Signature) : MacroTable :=
  sigs.foldl (fun table s => table.setIfNew s.name s) []

/-- The table of the macros that statements declare. -/
def MacroTable.ofBody (body : List Stmt) : MacroTable := ofSignatures (Stmt.bodySignatures body)

/-- The table of the macros that a template declares. -/
def Template.macroTable (t : Template) : MacroTable := .ofBody t.body

end TemplateContracts
