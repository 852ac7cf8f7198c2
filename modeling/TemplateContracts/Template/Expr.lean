import TemplateContracts.Binary64.Basic
import TemplateContracts.Location

/-!
# Template expressions

An expression is a tree whose every node carries its span.  `Expr.subexprs` lists a tree in
pre-order, which is the order in which a template reads.
-/

namespace TemplateContracts

/-- An identifier and where it stands. -/
structure Ident where
  name : String
  span : Span
  deriving DecidableEq, Repr, Inhabited

/-- How an attribute is asked for. -/
inductive AccessKind where
  /-- `a.b`: a property, a method or a key. -/
  | any
  /-- `a.b()`. -/
  | method
  /-- `a[b]`. -/
  | array
  deriving DecidableEq, Repr, Inhabited

/-- Where a called macro comes from. -/
inductive MacroTarget where
  /-- `_self.name()`. -/
  | own
  /-- `ns.name()`, after `import "x" as ns`. -/
  | inNamespace (localName : String)
  /-- `name()`, after `from "x" import name`. -/
  | imported
  deriving DecidableEq, Repr, Inhabited

/-- An argument of a call; named in `name: value`. -/
structure Argument (ε : Type) where
  name : Option String
  value : ε
  deriving Repr, Inhabited

/-- An expression of a template. -/
inductive Expr where
  | null (span : Span)
  | bool (span : Span) (value : Bool)
  | number (span : Span) (value : Binary64)
  | string (span : Span) (value : String)
  | array (span : Span) (items : List Expr)
  | hash (span : Span) (pairs : List (Expr × Expr))
  /-- A variable of the context. -/
  | name (span : Span) (name : String)
  /-- `receiver.attr`, `receiver.attr(arguments)` or `receiver[attr]`. -/
  | member (span : Span) (receiver : Expr) (attr : String) (access : AccessKind)
      (arguments : List (Argument Expr))
  | macroCall (span : Span) (target : MacroTarget) (name : String)
      (arguments : List (Argument Expr))
  /-- `name(arguments)` for a function that is no macro. -/
  | function (span : Span) (name : String) (arguments : List (Argument Expr))
  /-- `input|name(arguments)`. -/
  | filter (span : Span) (input : Expr) (name : String) (arguments : List (Argument Expr))
  /-- `input is name(arguments)`. -/
  | test (span : Span) (input : Expr) (name : String) (arguments : List (Argument Expr))
  /-- `(a, b) => body`. -/
  | lambda (span : Span) (params : List Ident) (body : Expr)
  | binary (span : Span) (op : String) (left right : Expr)
  | unary (span : Span) (op : String) (operand : Expr)
  | conditional (span : Span) (condition yes no : Expr)
  deriving Repr, Inhabited

/-- Whether an argument is named. -/
def Argument.isNamed {ε : Type} (a : Argument ε) : Bool := a.name.isSome

namespace Expr

/-- Where an expression stands. -/
def span : Expr → Span
  | null s | bool s _ | number s _ | string s _ | array s _ | hash s _ | name s _
  | member s _ _ _ _ | macroCall s _ _ _ | function s _ _ | filter s _ _ _ | test s _ _ _
  | lambda s _ _ | binary s _ _ _ | unary s _ _ | conditional s _ _ _ => s

/-- The variable that an expression is. -/
def asName? : Expr → Option String
  | name _ n => some n
  | _ => none

/-- The text that an expression spells literally. -/
def asString? : Expr → Option String
  | string _ s => some s
  | _ => none

/-- A literal of a scalar type. -/
def isLiteral : Expr → Bool
  | null _ | bool _ _ | number _ _ | string _ _ => true
  | _ => false

mutual

/-- An expression and all expressions inside it, in reading order. -/
def subexprs : Expr → List Expr
  | array s items => array s items :: itemsExprs items
  | hash s pairs => hash s pairs :: pairsExprs pairs
  | member s receiver a k args =>
    member s receiver a k args :: (subexprs receiver ++ argumentsExprs args)
  | macroCall s t n args => macroCall s t n args :: argumentsExprs args
  | function s n args => function s n args :: argumentsExprs args
  | filter s input n args => filter s input n args :: (subexprs input ++ argumentsExprs args)
  | test s input n args => test s input n args :: (subexprs input ++ argumentsExprs args)
  | lambda s ps body => lambda s ps body :: subexprs body
  | binary s op l r => binary s op l r :: (subexprs l ++ subexprs r)
  | unary s op e => unary s op e :: subexprs e
  | conditional s c y n => conditional s c y n :: (subexprs c ++ subexprs y ++ subexprs n)
  | e => [e]

/-- The expressions of a list. -/
def itemsExprs : List Expr → List Expr
  | [] => []
  | e :: rest => subexprs e ++ itemsExprs rest

/-- The expressions of the pairs of a hash, each key before its value. -/
def pairsExprs : List (Expr × Expr) → List Expr
  | [] => []
  | (k, v) :: rest => subexprs k ++ subexprs v ++ pairsExprs rest

/-- The expressions of arguments. -/
def argumentsExprs : List (Argument Expr) → List Expr
  | [] => []
  | ⟨_, e⟩ :: rest => subexprs e ++ argumentsExprs rest

end

theorem itemsExprs_eq (items : List Expr) : itemsExprs items = items.flatMap subexprs := by
  induction items with
  | nil => rfl
  | cons e rest ih => rw [itemsExprs, ih, List.flatMap_cons]

end Expr

end TemplateContracts
