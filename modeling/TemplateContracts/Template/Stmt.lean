import TemplateContracts.Template.Expr

/-!
# Template statements

A `Template` is a named list of statements.  `Stmt.exprs` lists the expressions of a statement in
reading order, those of nested statements included.
-/

namespace TemplateContracts

/-- One `name: 'type'` entry; the text of the type is kept as written. -/
structure TypeDecl where
  name : Ident
  typeText : String
  optional : Bool
  deriving DecidableEq, Repr, Inhabited

/-- A `types` statement: the declared contracts of variables. -/
structure Contract where
  mapping : List TypeDecl
  span : Span
  deriving DecidableEq, Repr, Inhabited

/-- What a guard asserts of its variable. -/
inductive GuardCheck where
  /-- The variable is in the context. -/
  | isSet
  /-- If it is there, it is not null. -/
  | notNull
  /-- If it is there and not null, its value has the type. -/
  | hasType (typeText : String)
  deriving DecidableEq, Repr, Inhabited

/-- An assertion on a context variable, made at render time. -/
structure Guard where
  variableName : String
  check : GuardCheck
  deriving DecidableEq, Repr, Inhabited

/-- A parameter of a macro. -/
structure MacroParam where
  name : Ident
  default : Option Expr
  deriving Repr, Inhabited

/-- One name of `from "x" import name as renamed`. -/
structure ImportedName where
  name : Ident
  renamed : Option Ident
  deriving DecidableEq, Repr, Inhabited

/-- What an import binds. -/
inductive ImportKind where
  /-- `import "x" as name`. -/
  | whole (localName : Ident)
  /-- `from "x" import a, b as c`. -/
  | names (names : List ImportedName)
  deriving DecidableEq, Repr, Inhabited

/-- An import; one whose template is not spelled out is dynamic. -/
structure Import where
  template : Expr
  kind : ImportKind
  span : Span
  deriving Repr, Inhabited

/-- A condition and the statements under it. -/
structure Branch (σ : Type) where
  condition : Expr
  body : List σ
  deriving Repr, Inhabited

/-- A statement of a template. -/
inductive Stmt where
  /-- Raw text. -/
  | text (text : String) (span : Span)
  | print (expr : Expr) (span : Span)
  | types (contract : Contract)
  /-- A `types` statement with its guards. -/
  | guarded (contract : Contract) (guards : List Guard)
  | assign (names : List Ident) (values : List Expr) (span : Span)
  /-- Without a key target the key is bound to `_key`. -/
  | loop (key : Option Ident) (value : Ident) (source : Expr) (body orElse : List Stmt)
      (span : Span)
  | branch (branches : List (Branch Stmt)) (orElse : List Stmt) (span : Span)
  | macroDecl (name : Ident) (params : List MacroParam) (body : List Stmt) (span : Span)
  | imports (spec : Import)
  deriving Repr, Inhabited

/-- A template as the loader knows it. -/
structure Template where
  name : String
  body : List Stmt
  span : Span
  deriving Repr, Inhabited

/-- The name that the importing template uses. -/
def ImportedName.localName (i : ImportedName) : String := (i.renamed.getD i.name).name

/-- The names that an import of names binds. -/
def ImportKind.localNames? : ImportKind → Option (List String)
  | .whole _ => none
  | .names list => some (list.map (·.localName))

/-- The default values of parameters. -/
def MacroParam.defaults (params : List MacroParam) : List Expr := params.filterMap (·.default)

namespace Stmt

/-- Where a statement stands. -/
def span : Stmt → Span
  | text _ s | print _ s | assign _ _ s | loop _ _ _ _ _ s | branch _ _ s | macroDecl _ _ _ s => s
  | types a => a.span
  | guarded a _ => a.span
  | imports i => i.span

mutual

/-- The expressions of a statement, in reading order. -/
def exprs : Stmt → List Expr
  | text _ _ | types _ | guarded _ _ => []
  | print e _ => e.subexprs
  | assign _ values _ => values.flatMap (·.subexprs)
  | loop _ _ source body orElse _ => source.subexprs ++ bodyExprs body ++ bodyExprs orElse
  | branch branches orElse _ => branchesExprs branches ++ bodyExprs orElse
  | macroDecl _ params body _ =>
    (MacroParam.defaults params).flatMap (·.subexprs) ++ bodyExprs body
  | imports i => i.template.subexprs

/-- The expressions of a list of statements. -/
def bodyExprs : List Stmt → List Expr
  | [] => []
  | s :: rest => exprs s ++ bodyExprs rest

/-- The expressions of branches, each condition before its statements. -/
def branchesExprs : List (Branch Stmt) → List Expr
  | [] => []
  | ⟨condition, body⟩ :: rest => condition.subexprs ++ bodyExprs body ++ branchesExprs rest

end

mutual

/-- The imports of a statement at any depth, in order. -/
def allImports : Stmt → List Import
  | imports i => [i]
  | loop _ _ _ body orElse _ => bodyImports body ++ bodyImports orElse
  | branch branches orElse _ => branchesImports branches ++ bodyImports orElse
  | macroDecl _ _ body _ => bodyImports body
  | _ => []

/-- The imports of a list of statements. -/
def bodyImports : List Stmt → List Import
  | [] => []
  | s :: rest => allImports s ++ bodyImports rest

/-- The imports of branches. -/
def branchesImports : List (Branch Stmt) → List Import
  | [] => []
  | ⟨_, body⟩ :: rest => bodyImports body ++ branchesImports rest

end

end Stmt

/-- The imports of a template at any depth, in order. -/
def Template.imports (t : Template) : List Import := Stmt.bodyImports t.body

end TemplateContracts
