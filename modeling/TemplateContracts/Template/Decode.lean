import TemplateContracts.Template.Stmt
import TemplateContracts.Template.Encode
import TemplateContracts.Json.Parser

/-!
# Templates from JSON

Readers for every JSON form of `TemplateContracts.Template.Encode`.  A reader of a recursive type
takes a bound on the nesting of what it reads; the depth of the JSON value is always enough.  A
reader of a type with variants takes the origin of the value, which decides the forms that the
fields of a variant may have.
-/

namespace TemplateContracts

open Json (Origin)

/-- Reads an identifier. -/
def Ident.ofJson? (j : Json) : Option Ident := do
  let r ← j.record? ["name", "span"]
  let name ← (r "name").required Json.string?
  let span ← (r "span").required Span.ofJson?
  return { name, span }

/-- Reads a call target. -/
def MacroTarget.ofJson? (j : Json) : Option MacroTarget := do
  match ← j.variant? with
  | ("SelfRef", content) =>
    Json.noContent content
    return .own
  | ("Namespace", some content) => return .inNamespace (← content.string?)
  | ("Imported", content) =>
    Json.noContent content
    return .imported
  | _ => none

namespace Expr

/-- Reads an argument with a reader of its value. -/
def argument? (read : Json → Option Expr) (j : Json) : Option (Argument Expr) := do
  let r ← j.record? ["name", "value"]
  let name ← (r "name").optional Json.string?
  let value ← (r "value").required read
  return { name, value }

/-- Reads a pair with a reader of its parts. -/
def pair? (read : Json → Option Expr) : Json → Option (Expr × Expr)
  | .array [k, v] => do return (← read k, ← read v)
  | _ => none

/-- Reads the name, the arguments and possibly the input of a call. -/
def call? (o : Origin) (read : Json → Option Expr) (j : Json) :
    Option (Expr × String × List (Argument Expr)) := do
  let r ← j.fields? o ["input", "name", "arguments"]
  let input ← (r "input").required read
  let name ← (r "name").required Json.string?
  let arguments ← (r "arguments").required (Json.list? (argument? read))
  return (input, name, arguments)

/-- Reads the kind of an expression that has content, with a reader of its parts. -/
def content? (o : Origin) (read : Json → Option Expr) (s : Span) (kind : String) (j : Json) :
    Option Expr :=
  match kind with
  | "Null" => (Json.noContent (some j)).map fun _ => .null s
  | "Bool" => j.bool?.map (.bool s)
  | "Number" => j.double?.map (.number s)
  | "String" => j.string?.map (.string s)
  | "Array" => (j.list? read).map (.array s)
  | "Hash" => (j.list? (pair? read)).map (.hash s)
  | "Name" => j.string?.map (.name s)
  | "GetAttr" => do
    let r ← j.fields? o ["receiver", "attribute", "access", "arguments"]
    let receiver ← (r "receiver").required read
    let attr ← (r "attribute").required Json.string?
    let access ← (r "access").required (Json.oneOf? AccessKind.text AccessKind.all)
    let arguments ← (r "arguments").required (Json.list? (argument? read))
    return .member s receiver attr access arguments
  | "MacroCall" => do
    let r ← j.record? ["target", "name", "arguments"]
    let target ← (r "target").required MacroTarget.ofJson?
    let name ← (r "name").required Json.string?
    let arguments ← (r "arguments").required (Json.list? (argument? read))
    return .macroCall s target name arguments
  | "Function" => do
    let r ← j.fields? o ["name", "arguments"]
    let name ← (r "name").required Json.string?
    let arguments ← (r "arguments").required (Json.list? (argument? read))
    return .function s name arguments
  | "Filter" => do
    let (input, called, arguments) ← call? o read j
    return .filter s input called arguments
  | "Test" => do
    let (input, called, arguments) ← call? o read j
    return .test s input called arguments
  | "Lambda" => do
    let r ← j.fields? o ["params", "body"]
    let params ← (r "params").required (Json.list? Ident.ofJson?)
    let body ← (r "body").required read
    return .lambda s params body
  | "Binary" => do
    let r ← j.fields? o ["op", "left", "right"]
    let op ← (r "op").required Json.string?
    let left ← (r "left").required read
    let right ← (r "right").required read
    return .binary s op left right
  | "Unary" => do
    let r ← j.fields? o ["op", "operand"]
    let op ← (r "op").required Json.string?
    let operand ← (r "operand").required read
    return .unary s op operand
  | "Conditional" => do
    let r ← j.fields? o ["condition", "then", "otherwise"]
    let condition ← (r "condition").required read
    let yes ← (r "then").required read
    let no ← (r "otherwise").required read
    return .conditional s condition yes no
  | _ => none

/-- Reads an expression nested at most `bound` deep. -/
def readWithin (o : Origin) : (bound : Nat) → Json → Option Expr
  | 0, _ => none
  | bound + 1, j => do
    let r ← j.record? ["kind", "span"]
    let (kind, content) ← (r "kind").required Json.variant?
    let span ← (r "span").required Span.ofJson?
    match content with
    | some j => content? o (readWithin o bound) span kind j
    | none => if kind = "Null" then return .null span else none

/-- Reads an expression. -/
def ofJson? (o : Origin) (j : Json) : Option Expr := readWithin o (j.depth + 1) j

end Expr

/-- Reads a declaration. -/
def TypeDecl.ofJson? (j : Json) : Option TypeDecl := do
  let r ← j.record? ["name", "type_text", "optional"]
  let name ← (r "name").required Ident.ofJson?
  let typeText ← (r "type_text").required Json.string?
  let optional ← (r "optional").required Json.bool?
  return { name, typeText, optional }

/-- Reads a `types` statement. -/
def Contract.ofJson? (j : Json) : Option Contract := do
  let r ← j.record? ["mapping", "span"]
  let mapping ← (r "mapping").required (Json.list? TypeDecl.ofJson?)
  let span ← (r "span").required Span.ofJson?
  return { mapping, span }

/-- Reads a check. -/
def GuardCheck.ofJson? (o : Origin) (j : Json) : Option GuardCheck := do
  match ← j.variant? with
  | ("exists", content) =>
    Json.noContent content
    return .isSet
  | ("not_null", content) =>
    Json.noContent content
    return .notNull
  | ("matches", some content) =>
    let r ← content.fields? o ["type_text"]
    return .hasType (← (r "type_text").required Json.string?)
  | _ => none

/-- Reads a guard. -/
def Guard.ofJson? (o : Origin) (j : Json) : Option Guard := do
  let r ← j.record? ["variable", "check"]
  let variableName ← (r "variable").required Json.string?
  let check ← (r "check").required (GuardCheck.ofJson? o)
  return { variableName, check }

/-- Reads a parameter. -/
def MacroParam.ofJson? (o : Origin) (j : Json) : Option MacroParam := do
  let r ← j.record? ["name", "default"]
  let name ← (r "name").required Ident.ofJson?
  let default ← (r "default").optional (Expr.ofJson? o)
  return { name, default }

/-- Reads an imported name. -/
def ImportedName.ofJson? (j : Json) : Option ImportedName := do
  let r ← j.record? ["name", "alias"]
  let name ← (r "name").required Ident.ofJson?
  let renamed ← (r "alias").optional Ident.ofJson?
  return { name, renamed }

/-- Reads what an import binds. -/
def ImportKind.ofJson? (j : Json) : Option ImportKind := do
  match ← j.variant? with
  | ("Namespace", some content) => return .whole (← Ident.ofJson? content)
  | ("Names", some content) => return .names (← content.list? ImportedName.ofJson?)
  | _ => none

/-- Reads an import. -/
def Import.ofJson? (o : Origin) (j : Json) : Option Import := do
  let r ← j.record? ["template", "kind", "span"]
  let template ← (r "template").required (Expr.ofJson? o)
  let kind ← (r "kind").required ImportKind.ofJson?
  let span ← (r "span").required Span.ofJson?
  return { template, kind, span }

namespace Stmt

/-- Reads a branch with a reader of its statements. -/
def branch? (o : Origin) (read : Json → Option Stmt) (j : Json) : Option (Branch Stmt) := do
  let r ← j.record? ["condition", "body"]
  let condition ← (r "condition").required (Expr.ofJson? o)
  let body ← (r "body").required (Json.list? read)
  return { condition, body }

/-- Reads the content of a statement with a reader of the statements inside it. -/
def content? (o : Origin) (read : Json → Option Stmt) (kind : String) (j : Json) : Option Stmt :=
  match kind with
  | "Text" => do
    let r ← j.fields? o ["text", "span"]
    let text ← (r "text").required Json.string?
    let span ← (r "span").required Span.ofJson?
    return .text text span
  | "Print" => do
    let r ← j.fields? o ["expr", "span"]
    let expr ← (r "expr").required (Expr.ofJson? o)
    let span ← (r "span").required Span.ofJson?
    return .print expr span
  | "Types" => (Contract.ofJson? j).map .types
  | "Guarded" => do
    let r ← j.record? ["types", "guards"]
    let contract ← (r "types").required Contract.ofJson?
    let guards ← (r "guards").required (Json.list? (Guard.ofJson? o))
    return .guarded contract guards
  | "Set" => do
    let r ← j.record? ["names", "values", "span"]
    let names ← (r "names").required (Json.list? Ident.ofJson?)
    let values ← (r "values").required (Json.list? (Expr.ofJson? o))
    let span ← (r "span").required Span.ofJson?
    return .assign names values span
  | "For" => do
    let r ← j.record? ["key_target", "value_target", "source", "body", "else_body", "span"]
    let key ← (r "key_target").optional Ident.ofJson?
    let value ← (r "value_target").required Ident.ofJson?
    let source ← (r "source").required (Expr.ofJson? o)
    let body ← (r "body").required (Json.list? read)
    let orElse ← (r "else_body").required (Json.list? read)
    let span ← (r "span").required Span.ofJson?
    return .loop key value source body orElse span
  | "If" => do
    let r ← j.record? ["branches", "else_body", "span"]
    let branches ← (r "branches").required (Json.list? (branch? o read))
    let orElse ← (r "else_body").required (Json.list? read)
    let span ← (r "span").required Span.ofJson?
    return .branch branches orElse span
  | "Macro" => do
    let r ← j.record? ["name", "params", "body", "span"]
    let name ← (r "name").required Ident.ofJson?
    let params ← (r "params").required (Json.list? (MacroParam.ofJson? o))
    let body ← (r "body").required (Json.list? read)
    let span ← (r "span").required Span.ofJson?
    return .macroDecl name params body span
  | "Import" => (Import.ofJson? o j).map .imports
  | _ => none

/-- Reads a statement nested at most `bound` deep. -/
def readWithin (o : Origin) : (bound : Nat) → Json → Option Stmt
  | 0, _ => none
  | bound + 1, j => do
    match ← j.variant? with
    | (kind, some content) => content? o (readWithin o bound) kind content
    | _ => none

/-- Reads a statement. -/
def ofJson? (o : Origin) (j : Json) : Option Stmt := readWithin o (j.depth + 1) j

end Stmt

namespace Template

/-- Reads a template. -/
def ofJson? (o : Origin) (j : Json) : Option Template := do
  let r ← j.record? ["name", "body", "span"]
  let name ← (r "name").required Json.string?
  let body ← (r "body").required (Json.list? (Stmt.ofJson? o))
  let span ← (r "span").required Span.ofJson?
  return { name, body, span }

/-- Reads a template from JSON text. -/
def ofText? (text : String) : Option Template := (Json.parse? text).bind (ofJson? .text)

end Template

end TemplateContracts
