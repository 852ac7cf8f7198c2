import TemplateContracts.Template.Stmt
import TemplateContracts.TypeExpr.Parser

/-!
# Guards of declared contracts

`synthesize` turns a `types` statement into guards; `instrument` puts the guards of every `types`
statement of a template next to it, at any depth.
-/

namespace TemplateContracts

namespace TypeDecl

/-- The declared type, if its text can be read. -/
def type? (d : TypeDecl) : Option TypeExpr := TypeExpr.parse? d.typeText

/-- Whether null is allowed.  A text that cannot be read counts by its leading question mark. -/
def isNullable (d : TypeDecl) : Bool :=
  match d.type? with
  | some t => t.isNullable
  | none => (Text.trimStart d.typeText).head? == some '?'

/-- Whether the declared type is exactly `mixed`. -/
def isMixed (d : TypeDecl) : Bool := d.type?.any (·.isMixed)

/-- The guards of a declaration: set unless optional, not null unless nullable, of the type unless
that is `mixed`. -/
def guards (d : TypeDecl) : List Guard :=
  (if d.optional then [] else [⟨d.name.name, .isSet⟩]) ++
  (if d.isNullable then [] else [⟨d.name.name, .notNull⟩]) ++
  (if d.isMixed then [] else [⟨d.name.name, .hasType d.typeText⟩])

end TypeDecl

/-- The guards of a `types` statement, declaration by declaration. -/
def Contract.synthesize (a : Contract) : List Guard := a.mapping.flatMap (·.guards)

namespace Stmt

mutual

/-- A statement with the guards of its `types` statements. -/
def instrument : Stmt → Stmt
  | types a => guarded a a.synthesize
  | loop key value source body orElse s =>
    loop key value source (instrumentBody body) (instrumentBody orElse) s
  | branch branches orElse s => branch (instrumentBranches branches) (instrumentBody orElse) s
  | macroDecl name params body s => macroDecl name params (instrumentBody body) s
  | s => s

/-- Statements with the guards of their `types` statements. -/
def instrumentBody : List Stmt → List Stmt
  | [] => []
  | s :: rest => instrument s :: instrumentBody rest

/-- Branches with the guards of their `types` statements. -/
def instrumentBranches : List (Branch Stmt) → List (Branch Stmt)
  | [] => []
  | ⟨condition, body⟩ :: rest => ⟨condition, instrumentBody body⟩ :: instrumentBranches rest

end

end Stmt

/-- A template with the guards of its `types` statements. -/
def Template.instrument (t : Template) : Template := { t with body := Stmt.instrumentBody t.body }

end TemplateContracts
