import TemplateContracts.Template.Stmt

/-!
# Building templates by hand

Constructors that know lines only.  An expression built around another one stands where its first
part stands.
-/

namespace TemplateContracts

/-- An identifier on a line. -/
def Ident.onLine (name : String) (line : UInt32) : Ident := ⟨name, .ofLine line⟩

namespace Expr

/-- `receiver.name`, `receiver.name(arguments)` or `receiver[name]`. -/
def access (receiver : Expr) (name : String) (kind : AccessKind)
    (arguments : List (Argument Expr)) : Expr :=
  .member receiver.span receiver name kind arguments

/-- A filter on an input. -/
def filtered (input : Expr) (name : String) (arguments : List (Argument Expr)) : Expr :=
  .filter input.span input name arguments

/-- A test of an input. -/
def tested (input : Expr) (name : String) (arguments : List (Argument Expr)) : Expr :=
  .test input.span input name arguments

/-- A lambda on a line. -/
def lambdaOnLine (params : List String) (body : Expr) (line : UInt32) : Expr :=
  .lambda (.ofLine line) (params.map (Ident.onLine · line)) body

/-- An operator between two expressions. -/
def operator (op : String) (left right : Expr) : Expr := .binary left.span op left right

/-- An operator before an expression. -/
def signed (op : String) (operand : Expr) : Expr := .unary operand.span op operand

/-- A choice between two expressions. -/
def choice (condition yes no : Expr) : Expr := .conditional condition.span condition yes no

end Expr

/-- A parameter without a default. -/
def MacroParam.required (name : String) (line : UInt32) : MacroParam :=
  ⟨.onLine name line, none⟩

/-- A parameter with a default, on the line of the default. -/
def MacroParam.optional (name : String) (default : Expr) : MacroParam :=
  ⟨.onLine name default.span.line, some default⟩

/-- A declaration on a line.  A question mark at the end of the name marks it optional. -/
def TypeDecl.onLine (name typeText : String) (line : UInt32) : TypeDecl :=
  match name.toList.reverse with
  | '?' :: rest => ⟨.onLine (String.ofList rest.reverse) line, typeText, true⟩
  | _ => ⟨.onLine name line, typeText, false⟩

namespace Stmt

/-- Prints an expression where it stands. -/
def printed (e : Expr) : Stmt := .print e e.span

/-- A `types` statement. -/
def typesOnLine (mapping : List (String × String)) (line : UInt32) : Stmt :=
  .types ⟨mapping.map fun (name, typeText) => .onLine name typeText line, .ofLine line⟩

/-- An assignment. -/
def assignOnLine (names : List String) (values : List Expr) (line : UInt32) : Stmt :=
  .assign (names.map (Ident.onLine · line)) values (.ofLine line)

/-- A loop. -/
def loopOnLine (key : Option String) (value : String) (source : Expr) (body orElse : List Stmt)
    (line : UInt32) : Stmt :=
  .loop (key.map (Ident.onLine · line)) (.onLine value line) source body orElse (.ofLine line)

/-- A macro. -/
def macroOnLine (name : String) (params : List MacroParam) (body : List Stmt) (line : UInt32) :
    Stmt :=
  .macroDecl (.onLine name line) params body (.ofLine line)

/-- `import template as name`. -/
def importOnLine (template : Expr) (localName : String) (line : UInt32) : Stmt :=
  .imports ⟨template, .whole (.onLine localName line), .ofLine line⟩

/-- `from template import names`. -/
def fromOnLine (template : Expr) (names : List (String × Option String)) (line : UInt32) : Stmt :=
  .imports ⟨template,
    .names (names.map fun (name, renamed) =>
      ⟨.onLine name line, renamed.map (Ident.onLine · line)⟩),
    .ofLine line⟩

end Stmt

/-- A template that starts on line one. -/
def Template.ofBody (name : String) (body : List Stmt) : Template := ⟨name, body, .ofLine 1⟩

end TemplateContracts
