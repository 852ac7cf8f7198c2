import TemplateContracts.Macro.Signature

/-!
# What a template can call

The macros a template declares itself and those it imports.  An import of a template that cannot be
looked into is hidden: calls into it are neither checked nor unknown.
-/

namespace TemplateContracts

/-- Something imported: known, or out of sight. -/
inductive Imported (α : Type) where
  | known (a : α)
  | hidden
  deriving DecidableEq, Repr, Inhabited

/-- What is known from a table that may be missing. -/
def Imported.ofOption {α : Type} : Option α → Imported α
  | some a => .known a
  | none => .hidden

/-- What a call target turns out to be. -/
inductive Resolution where
  | resolved (s : Signature)
  /-- It comes from somewhere out of sight. -/
  | hidden
  | unknown
  deriving DecidableEq, Repr, Inhabited

/-- Everything that a template can call. -/
structure Registry where
  /-- The macros of the template itself. -/
  own : MacroTable
  /-- Macros imported by name. -/
  imported : Assoc (Imported Signature) := []
  /-- Templates imported as a whole. -/
  namespaces : Assoc (Imported MacroTable) := []
  deriving Inhabited

namespace Registry

/-- Binds a name to an imported macro, in place of what it was bound to. -/
def importMacro (r : Registry) (localName : String) (m : Imported Signature) : Registry :=
  { r with imported := r.imported.set localName m }

/-- Binds a name to an imported template, in place of what it was bound to. -/
def importNamespace (r : Registry) (localName : String) (table : Imported MacroTable) : Registry :=
  { r with namespaces := r.namespaces.set localName table }

/-- Looks a macro up in a table. -/
def resolveIn (table : MacroTable) (name : String) : Resolution :=
  match table.get? name with
  | some s => .resolved s
  | none => .unknown

/-- What a call target is.  A macro of the template itself hides an imported one of its name. -/
def resolve (r : Registry) (target : MacroTarget) (name : String) : Resolution :=
  match target with
  | .own => resolveIn r.own name
  | .inNamespace localName =>
    match r.namespaces.get? localName with
    | some (.known table) => resolveIn table name
    | some .hidden => .hidden
    | none => .unknown
  | .imported =>
    match r.own.get? name with
    | some s => .resolved s
    | none =>
      match r.imported.get? name with
      | some (.known s) => .resolved s
      | some .hidden => .hidden
      | none => .unknown

/-- Binds what an import binds, given the table of its template if that is in sight.  A name that
the table lacks binds nothing. -/
def bind (r : Registry) (kind : ImportKind) (table : Option MacroTable) : Registry :=
  match kind with
  | .whole localName => r.importNamespace localName.name (.ofOption table)
  | .names list =>
    list.foldl (fun r i =>
      match table with
      | none => r.importMacro i.localName .hidden
      | some table =>
        match table.get? i.name.name with
        | some s => r.importMacro i.localName (.known s)
        | none => r) r

/-- Imports leave the macros of the template itself alone. -/
theorem own_bind (r : Registry) (kind : ImportKind) (table : Option MacroTable) :
    (r.bind kind table).own = r.own := by
  cases kind with
  | whole localName => rfl
  | names list =>
    unfold bind
    dsimp only
    induction list generalizing r with
    | nil => rfl
    | cons i rest ih =>
      rw [List.foldl_cons, ih]
      split
      · rfl
      · split <;> rfl

end Registry

end TemplateContracts
