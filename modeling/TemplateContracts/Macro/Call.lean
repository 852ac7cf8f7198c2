import TemplateContracts.Config
import TemplateContracts.Diagnostic.Basic
import TemplateContracts.Macro.Signature

/-!
# Checks of macro calls and declarations

Messages name a macro as it is written at the call, which differs from its declared name under an
alias.
-/

namespace TemplateContracts.Macro

/-- The named arguments that a macro does not declare, in order. -/
def undeclaredArguments (s : Signature) (arguments : List (Argument Expr)) : List String :=
  (arguments.filterMap (·.name)).filter fun n => !s.declares n

/-- Finding: more arguments than parameters, unless any number is accepted. -/
def tooMany? (s : Signature) (name : String) (n : Nat) (place : Location) : Option Diagnostic :=
  if !s.acceptsVarargs && s.paramCount < n then
    some (.error .tooManyArguments
      ("Too many arguments (" ++ toString n ++ ") for macro '" ++ name ++ "' " ++ place.suffix)
      place)
  else none

/-- Finding: fewer arguments than required parameters. -/
def tooFew? (s : Signature) (name : String) (n : Nat) (place : Location) : Option Diagnostic :=
  if n < s.requiredCount then
    some (.error .tooFewArguments
      ("Too few arguments (" ++ toString n ++ ") for macro '" ++ name ++ "' " ++ place.suffix)
      place)
  else none

/-- Finding: named arguments that the macro does not declare. -/
def badNames? (s : Signature) (arguments : List (Argument Expr)) (place : Location) :
    Option Diagnostic :=
  let names := undeclaredArguments s arguments
  if names.isEmpty then none
  else
    some (.error .invalidNamedArgument
      ("Invalid named macro argument(s) " ++ ", ".intercalate names ++ " " ++ place.suffix) place)

/-- The findings of a call against the signature it resolved to. -/
def validateCall (c : Config) (s : Signature) (name : String) (arguments : List (Argument Expr))
    (place : Location) : List Diagnostic :=
  (if c.isEnabled .badArgumentCount then
    (tooMany? s name arguments.length place).toList ++
      (tooFew? s name arguments.length place).toList
  else []) ++
  (if c.isEnabled .invalidNamedArgument then (badNames? s arguments place).toList else [])

/-- Whether a positional argument stands behind a named one. -/
def isOutOfOrder (arguments : List (Argument Expr)) : Bool :=
  (arguments.dropWhile (!·.isNamed)).any (!·.isNamed)

/-- Finding: a positional argument behind a named one. -/
def outOfOrder? (arguments : List (Argument Expr)) (place : Location) : Option Diagnostic :=
  if isOutOfOrder arguments then
    some (.error .positionalAfterNamed
      ("Positional macro argument after named " ++ place.suffix) place)
  else none

/-- Finding: a required parameter behind an optional one; only the first is named. -/
def badDeclaration? (s : Signature) (place : Location) : Option Diagnostic :=
  s.requiredAfterOptional?.map fun p =>
    .warning .requiredAfterOptional
      ("Macro '" ++ s.name ++ "' argument '" ++ p.name ++ "' is required, but previous isn't " ++
        place.suffix) place

end TemplateContracts.Macro
