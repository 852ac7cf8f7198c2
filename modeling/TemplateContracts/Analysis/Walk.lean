import TemplateContracts.Access
import TemplateContracts.Analysis.Event
import TemplateContracts.Binary64.Shortest
import TemplateContracts.Macro.Call
import TemplateContracts.Macro.Registry
import TemplateContracts.TypeEnv
import TemplateContracts.TypeExpr.Matching

/-!
# The walk over a template

The walk visits every statement and expression of a template in reading order and logs what it
finds.  It threads a `TypeEnv`: statements declare variables, lambdas and loops push and pop them, a
macro body has a frame of its own.

* `Walk` : a step of the walk, from an environment to the environment after it and what it logs.
* `Site.checkExpr`, `Site.checkStmt` : the walk of an expression and of a statement.
-/

namespace TemplateContracts

/-- A step of the walk. -/
abbrev Walk := TypeEnv → TypeEnv × List Event

namespace Walk

/-- Does nothing. -/
def skip : Walk := fun env => (env, [])

/-- Logs events. -/
def emit (events : List Event) : Walk := fun env => (env, events)

/-- Logs events that depend on the environment. -/
def read (events : TypeEnv → List Event) : Walk := fun env => (env, events env)

/-- Changes the environment. -/
def change (f : TypeEnv → TypeEnv) : Walk := fun env => (f env, [])

/-- One step after another. -/
def andThen (first second : Walk) : Walk := fun env =>
  ((second (first env).1).1, (first env).2 ++ (second (first env).1).2)

/-- Steps in order. -/
def all : List Walk → Walk
  | [] => skip
  | w :: ws => w.andThen (all ws)

end Walk

/-- What the walk of one template works with. -/
structure Site where
  config : Config
  classes : ClassTable
  registry : Registry
  /-- The name of the template. -/
  path : String

namespace Site

/-- The place of a span in the template. -/
def place (c : Site) (s : Span) : Location := s.inTemplate c.path

/-- Reports of findings, if an inspection is enabled. -/
def reports (c : Site) (i : Inspection) (ds : List Diagnostic) : List Event :=
  if c.config.isEnabled i then ds.map .reported else []

/-! ### Variables -/

/-- Whether a name is always a variable inside a macro. -/
def isImplicit (c : Site) (name : String) : Bool :=
  c.config.isGlobal name || name == varargs || name == "_self" ||
    "__internal".toList.isPrefixOf name.toList

/-- The finding of a name inside a macro. -/
def undeclared (c : Site) (macroName name : String) (s : Span) : Diagnostic :=
  .warning .undeclaredVariable
    ("The macro \"" ++ macroName ++ "\" (" ++ (c.place s).text ++
      ") uses an undeclared variable named \"" ++ name ++ "\".") (c.place s)

/-- A variable is checked inside macro bodies only. -/
def checkName (c : Site) (inside : Option String) (name : String) (s : Span) (env : TypeEnv) :
    List Event :=
  match inside with
  | none => []
  | some macroName =>
    if env.declares name || c.isImplicit name then []
    else c.reports .undeclaredVariableInMacro [c.undeclared macroName name s]

/-! ### Attributes and constants -/

/-- The finding of a refused access. -/
def refused (c : Site) (code : Code) (s : Span) (e : AccessError) : Diagnostic :=
  .error code (e.message ++ " " ++ (c.place s).suffix) (c.place s)

/-- The enumeration in `enum('Name')`. -/
def enumTarget? : Expr → Option String
  | .function _ "enum" [arg] => arg.value.asString?
  | _ => none

/-- The checks of an attribute access, before those of its parts: a case of an enumeration, then an
attribute of a declared variable. -/
def checkAccess (c : Site) (receiver : Expr) (attr : String) (access : AccessKind) (s : Span)
    (env : TypeEnv) : List Event :=
  c.reports .invalidEnumCase
    (((enumTarget? receiver).bind fun e => c.classes.enumCaseError? e attr).map
      (c.refused .invalidEnumCase s)).toList ++
  c.reports .invalidDotOperation
    (((receiver.asName?.bind env.lookup?).bind fun t => c.classes.accessError? t attr access).map
      (c.refused .invalidAttributeAccess s)).toList

/-- Numbers in messages have the fewest digits that read back, a half going up, and no exponent. -/
def numberLayout : Binary64.Layout :=
  { positional := none, keepPlace := false, tie := .up, nan := "NaN", infinity := "inf" }

/-- A literal that is no string, as it would be printed. -/
def literalText? : Expr → Option String
  | .null _ => some ""
  | .bool _ b => some (if b then "1" else "")
  | .number _ x =>
    if x.isIntegral then some (toString x.toInt64Clamped)
    else some (String.ofList (numberLayout.text x))
  | _ => none

/-- What is wrong with the arguments of `constant`, if anything. -/
def constantError? (c : Site) (arguments : List (Argument Expr)) : Option String :=
  match arguments with
  | [] => some "missing constant name"
  | [single] =>
    match single.value with
    | .string _ name =>
      if c.classes.hasConstant name then none else some ("invalid constant: '" ++ name ++ "'")
    | e =>
      match literalText? e with
      | some text => some ("invalid constant: '" ++ text ++ "'")
      | none => some "single argument must be string"
  | [name, object] =>
    if name.value.asString?.isNone then some "first argument must be string"
    else if object.value.asName?.isNone then some "second argument must be a variable name"
    else none
  | _ => some "too many arguments"

/-- The check of a use of `constant`. -/
def checkConstant (c : Site) (arguments : List (Argument Expr)) (s : Span) : List Event :=
  c.reports .invalidConstant
    ((c.constantError? arguments).map fun reason =>
      Diagnostic.error .invalidConstant
        ("Invalid constant() call: " ++ reason ++ " " ++ (c.place s).suffix) (c.place s)).toList

/-- The check of a function or test by its name. -/
def checkNamed (c : Site) (name : String) (arguments : List (Argument Expr)) (s : Span) :
    List Event :=
  if name = "constant" then c.checkConstant arguments s else []

/-! ### Macro calls -/

/-- The checks of a macro call, before those of its arguments. -/
def checkCall (c : Site) (target : MacroTarget) (name : String)
    (arguments : List (Argument Expr)) (s : Span) : List Event :=
  c.reports .positionalAfterNamed (Macro.outOfOrder? arguments (c.place s)).toList ++
  match c.registry.resolve target name with
  | .resolved sig => (Macro.validateCall c.config sig name arguments (c.place s)).map .reported
  | .hidden => [.hiddenCall name]
  | .unknown =>
    c.reports .unknownMacro
      [.error .unknownMacro ("Unknown macro '" ++ name ++ "' " ++ (c.place s).suffix) (c.place s)]

/-! ### Expressions -/

mutual

/-- The walk of an expression, inside the macro of the given name or outside of macros. -/
def checkExpr (c : Site) (inside : Option String) : Expr → Walk
  | .null _ | .bool _ _ | .number _ _ | .string _ _ => .skip
  | .array _ items => checkExprs c inside items
  | .hash _ pairs => checkPairs c inside pairs
  | .name s n => .read (c.checkName inside n s)
  | .member s receiver attr access arguments =>
    .all [.read (c.checkAccess receiver attr access s), checkExpr c inside receiver,
      checkArguments c inside arguments]
  | .macroCall s target n arguments =>
    .all [.emit (c.checkCall target n arguments s), checkArguments c inside arguments]
  | .function s n arguments =>
    .all [.emit (c.checkNamed n arguments s), checkArguments c inside arguments]
  | .filter _ input _ arguments =>
    .all [checkExpr c inside input, checkArguments c inside arguments]
  | .test s input n arguments =>
    if n = "defined" then
      -- a name may be undeclared here, and a constant may be missing
      match input with
      | .name _ _ => checkArguments c inside arguments
      | .function _ _ inner =>
        .all [checkArguments c inside inner, checkArguments c inside arguments]
      | input => .all [checkExpr c inside input, checkArguments c inside arguments]
    else
      .all [checkExpr c inside input, .emit (c.checkNamed n arguments s),
        checkArguments c inside arguments]
  | .lambda _ params body =>
    .all [.change (·.pushAll (params.map (·.name)) .mixed), checkExpr c inside body,
      .change (·.popAll (params.map (·.name)))]
  | .binary _ _ left right => .all [checkExpr c inside left, checkExpr c inside right]
  | .unary _ _ operand => checkExpr c inside operand
  | .conditional _ condition yes no =>
    .all [checkExpr c inside condition, checkExpr c inside yes, checkExpr c inside no]

/-- The walk of expressions in order. -/
def checkExprs (c : Site) (inside : Option String) : List Expr → Walk
  | [] => .skip
  | e :: rest => (checkExpr c inside e).andThen (checkExprs c inside rest)

/-- The walk of the pairs of a hash, each key before its value. -/
def checkPairs (c : Site) (inside : Option String) : List (Expr × Expr) → Walk
  | [] => .skip
  | (k, v) :: rest => .all [checkExpr c inside k, checkExpr c inside v, checkPairs c inside rest]

/-- The walk of arguments in order. -/
def checkArguments (c : Site) (inside : Option String) : List (Argument Expr) → Walk
  | [] => .skip
  | ⟨_, e⟩ :: rest => (checkExpr c inside e).andThen (checkArguments c inside rest)

end

/-! ### Declarations -/

/-- The finding of a declaration whose type is wrong. -/
def invalidType (code : Code) (place : Location) (d : TypeDecl) : Diagnostic :=
  .error code
    ("Invalid type '" ++ d.typeText ++ "' for variable '" ++ d.name.name ++ "' " ++ place.suffix)
    place

/-- The finding of a deprecated spelling. -/
def deprecatedType (place : Location) (d : Deprecation) : Diagnostic :=
  .deprecation .deprecatedType
    ("Deprecated type '" ++ d.spelling ++ "' used " ++ place.suffix ++ ". Use '" ++
      d.replacement.keyword ++ "' instead.") place

/-- What is logged of a declaration, given what reading its type gave. -/
def declarationEvents (c : Site) (place : Location) (d : TypeDecl) :
    TypeParser.Outcome → List Event
  | (.ok type, p) =>
    p.deprecations.map (fun dep => .reported (deprecatedType place dep)) ++
      (if type.isKnown c.classes then [] else [.reported (invalidType .unknownType place d)])
  | (.error e, _) =>
    [.typeError d.name.name e, .reported (invalidType .invalidTypeSyntax place d)]

/-- The walk of a declaration; a type that cannot be read counts as `mixed`. -/
def checkDeclaration (c : Site) (place : Location) (d : TypeDecl) : Walk :=
  let outcome := (TypeParser.ofText d.typeText).parse
  .all
    [.emit (if c.config.isEnabled .invalidTypes then c.declarationEvents place d outcome else []),
    .change (·.add d.name.name (outcome.1.toOption.getD .mixed))]

/-- The walk of a `types` statement. -/
def checkTypes (c : Site) (a : Contract) : Walk :=
  .all (a.mapping.map (c.checkDeclaration (c.place a.span)))

/-! ### Statements -/

/-- Declares the names of an assignment that are not declared yet. -/
def declareNew (names : List String) (env : TypeEnv) : TypeEnv :=
  names.foldl (fun env n => if env.declares n then env else env.add n .mixed) env

/-- Declares the names of an assignment. -/
def declareAll (names : List String) (env : TypeEnv) : TypeEnv :=
  env.addAll (names.map fun n => (n, .mixed))

/-- The names that a loop binds. -/
def loopTargets (key : Option Ident) (value : Ident) : List String :=
  ["loop", (key.map (·.name)).getD "_key", value.name]

/-- The check of a macro declaration. -/
def checkSignature (c : Site) (name : String) (params : List MacroParam) (body : List Stmt)
    (s : Span) : List Event :=
  c.reports .requiredAfterOptional
    (Macro.badDeclaration? (.ofDecl name params body) (c.place s)).toList

mutual

/-- The walk of a statement, inside the macro of the given name or outside of macros. -/
def checkStmt (c : Site) (inside : Option String) : Stmt → Walk
  | .text _ _ => .skip
  | .print e _ => c.checkExpr inside e
  | .types a => c.checkTypes a
  | .guarded a _ => c.checkTypes a
  | .assign names values _ =>
    -- a name counts as declared inside its own value
    .all [.change (declareNew (names.map (·.name))), c.checkExprs inside values,
      .change (declareAll (names.map (·.name)))]
  | .loop key value source body orElse _ =>
    .all [c.checkExpr inside source, .change (·.pushAll (loopTargets key value) .mixed),
      checkBody c inside body, .change (·.popAll (loopTargets key value)),
      checkBody c inside orElse]
  | .branch branches orElse _ =>
    .all [checkBranches c inside branches, checkBody c inside orElse]
  | .macroDecl name params body s =>
    .all [.emit (c.checkSignature name.name params body s),
      c.checkExprs inside (MacroParam.defaults params),
      .change fun env => (env.pushFrame .macroBody).pushAll (params.map (·.name.name)) .mixed,
      checkBody c (some name.name) body, .change (·.popFrame)]
  | .imports i => c.checkExpr inside i.template

/-- The walk of statements in order. -/
def checkBody (c : Site) (inside : Option String) : List Stmt → Walk
  | [] => .skip
  | s :: rest => (checkStmt c inside s).andThen (checkBody c inside rest)

/-- The walk of branches in order, each condition before its statements. -/
def checkBranches (c : Site) (inside : Option String) : List (Branch Stmt) → Walk
  | [] => .skip
  | ⟨condition, body⟩ :: rest =>
    .all [c.checkExpr inside condition, checkBody c inside body, checkBranches c inside rest]

end

/-- What the walk of the statements of a template logs. -/
def walk (c : Site) (body : List Stmt) : List Event := (c.checkBody none body .empty).2

end Site

end TemplateContracts
