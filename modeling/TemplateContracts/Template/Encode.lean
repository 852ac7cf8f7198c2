import TemplateContracts.Template.Stmt
import TemplateContracts.Diagnostic.Codec
import TemplateContracts.Json.Printer
import TemplateContracts.Sha256

/-!
# Templates as JSON

The JSON form of every part of a template.  A variant with content is an object whose only key names
it; one without content is its name.  A record is an object with all its fields in order.
-/

namespace TemplateContracts

/-- A variant with content. -/
def Json.tagged (name : String) (content : Json) : Json := .object [(name, content)]

namespace Ident

/-- The JSON form of an identifier. -/
def toJson (i : Ident) : Json := .object [("name", .string i.name), ("span", i.span.toJson)]

end Ident

namespace AccessKind

/-- The name of a kind of access. -/
def text : AccessKind → String
  | any => "any"
  | method => "method"
  | array => "array"

/-- Every kind of access. -/
def all : List AccessKind := [any, method, array]

end AccessKind

namespace MacroTarget

/-- The JSON form of a call target. -/
def toJson : MacroTarget → Json
  | own => .string "SelfRef"
  | inNamespace localName => .tagged "Namespace" (.string localName)
  | imported => .string "Imported"

end MacroTarget

namespace Expr

mutual

/-- The JSON form of an expression: its kind and its span. -/
def toJson : Expr → Json
  | null s => .object [("kind", .string "Null"), ("span", s.toJson)]
  | bool s b => .object [("kind", .tagged "Bool" (.bool b)), ("span", s.toJson)]
  | number s x => .object [("kind", .tagged "Number" (.double x)), ("span", s.toJson)]
  | string s t => .object [("kind", .tagged "String" (.string t)), ("span", s.toJson)]
  | array s items =>
    .object [("kind", .tagged "Array" (.array (itemsJson items))), ("span", s.toJson)]
  | hash s pairs =>
    .object [("kind", .tagged "Hash" (.array (pairsJson pairs))), ("span", s.toJson)]
  | name s n => .object [("kind", .tagged "Name" (.string n)), ("span", s.toJson)]
  | member s receiver attr access args =>
    .object [("kind", .tagged "GetAttr" (.object [("receiver", toJson receiver),
      ("attribute", .string attr), ("access", .string access.text),
      ("arguments", .array (argumentsJson args))])), ("span", s.toJson)]
  | macroCall s target n args =>
    .object [("kind", .tagged "MacroCall" (.object [("target", target.toJson), ("name", .string n),
      ("arguments", .array (argumentsJson args))])), ("span", s.toJson)]
  | function s n args =>
    .object [("kind", .tagged "Function" (.object [("name", .string n),
      ("arguments", .array (argumentsJson args))])), ("span", s.toJson)]
  | filter s input n args =>
    .object [("kind", .tagged "Filter" (.object [("input", toJson input), ("name", .string n),
      ("arguments", .array (argumentsJson args))])), ("span", s.toJson)]
  | test s input n args =>
    .object [("kind", .tagged "Test" (.object [("input", toJson input), ("name", .string n),
      ("arguments", .array (argumentsJson args))])), ("span", s.toJson)]
  | lambda s params body =>
    .object [("kind", .tagged "Lambda" (.object [("params", .list Ident.toJson params),
      ("body", toJson body)])), ("span", s.toJson)]
  | binary s op left right =>
    .object [("kind", .tagged "Binary" (.object [("op", .string op), ("left", toJson left),
      ("right", toJson right)])), ("span", s.toJson)]
  | unary s op operand =>
    .object [("kind", .tagged "Unary" (.object [("op", .string op),
      ("operand", toJson operand)])), ("span", s.toJson)]
  | conditional s condition yes no =>
    .object [("kind", .tagged "Conditional" (.object [("condition", toJson condition),
      ("then", toJson yes), ("otherwise", toJson no)])), ("span", s.toJson)]

/-- The JSON forms of the items of an array. -/
def itemsJson : List Expr → List Json
  | [] => []
  | e :: rest => toJson e :: itemsJson rest

/-- The JSON forms of the pairs of a hash. -/
def pairsJson : List (Expr × Expr) → List Json
  | [] => []
  | (k, v) :: rest => .array [toJson k, toJson v] :: pairsJson rest

/-- The JSON forms of arguments. -/
def argumentsJson : List (Argument Expr) → List Json
  | [] => []
  | ⟨n, e⟩ :: rest =>
    .object [("name", .option .string n), ("value", toJson e)] :: argumentsJson rest

end

end Expr

/-- The JSON form of a declaration. -/
def TypeDecl.toJson (d : TypeDecl) : Json :=
  .object [("name", d.name.toJson), ("type_text", .string d.typeText),
    ("optional", .bool d.optional)]

/-- The JSON form of a `types` statement. -/
def Contract.toJson (a : Contract) : Json :=
  .object [("mapping", .list TypeDecl.toJson a.mapping), ("span", a.span.toJson)]

/-- The JSON form of a check. -/
def GuardCheck.toJson : GuardCheck → Json
  | isSet => .string "exists"
  | notNull => .string "not_null"
  | hasType typeText => .tagged "matches" (.object [("type_text", .string typeText)])

/-- The JSON form of a guard. -/
def Guard.toJson (g : Guard) : Json :=
  .object [("variable", .string g.variableName), ("check", g.check.toJson)]

/-- The JSON form of a parameter. -/
def MacroParam.toJson (p : MacroParam) : Json :=
  .object [("name", p.name.toJson), ("default", .option Expr.toJson p.default)]

/-- The JSON form of an imported name. -/
def ImportedName.toJson (i : ImportedName) : Json :=
  .object [("name", i.name.toJson), ("alias", .option Ident.toJson i.renamed)]

/-- The JSON form of what an import binds. -/
def ImportKind.toJson : ImportKind → Json
  | whole localName => .tagged "Namespace" localName.toJson
  | names list => .tagged "Names" (.list ImportedName.toJson list)

/-- The JSON form of an import. -/
def Import.toJson (i : Import) : Json :=
  .object [("template", i.template.toJson), ("kind", i.kind.toJson), ("span", i.span.toJson)]

namespace Stmt

mutual

/-- The JSON form of a statement. -/
def toJson : Stmt → Json
  | text t s => .tagged "Text" (.object [("text", .string t), ("span", s.toJson)])
  | print e s => .tagged "Print" (.object [("expr", e.toJson), ("span", s.toJson)])
  | types a => .tagged "Types" a.toJson
  | guarded a guards =>
    .tagged "Guarded" (.object [("types", a.toJson), ("guards", .list Guard.toJson guards)])
  | assign names values s =>
    .tagged "Set" (.object [("names", .list Ident.toJson names),
      ("values", .list Expr.toJson values), ("span", s.toJson)])
  | loop key value source body orElse s =>
    .tagged "For" (.object [("key_target", .option Ident.toJson key),
      ("value_target", value.toJson), ("source", source.toJson), ("body", .array (bodyJson body)),
      ("else_body", .array (bodyJson orElse)), ("span", s.toJson)])
  | branch branches orElse s =>
    .tagged "If" (.object [("branches", .array (branchesJson branches)),
      ("else_body", .array (bodyJson orElse)), ("span", s.toJson)])
  | macroDecl name params body s =>
    .tagged "Macro" (.object [("name", name.toJson), ("params", .list MacroParam.toJson params),
      ("body", .array (bodyJson body)), ("span", s.toJson)])
  | imports i => .tagged "Import" i.toJson

/-- The JSON forms of statements. -/
def bodyJson : List Stmt → List Json
  | [] => []
  | s :: rest => toJson s :: bodyJson rest

/-- The JSON forms of branches. -/
def branchesJson : List (Branch Stmt) → List Json
  | [] => []
  | ⟨condition, body⟩ :: rest =>
    .object [("condition", condition.toJson), ("body", .array (bodyJson body))] ::
      branchesJson rest

end

end Stmt

namespace Template

/-- The JSON form of a template. -/
def toJson (t : Template) : Json :=
  .object [("name", .string t.name), ("body", .array (Stmt.bodyJson t.body)),
    ("span", t.span.toJson)]

/-- The compact JSON text of a template. -/
def toText (t : Template) : String := t.toJson.compact

/-- The digest of the compact JSON text of a template. -/
def fingerprint (t : Template) : String := Sha256.ofText t.toText

end Template

end TemplateContracts
