import TemplateContracts.Assoc
import TemplateContracts.Template.Decode

/-!
# Loading templates

A `Loader` gives templates by name.  Only finitely many names load; a loader lists them, so an
analysis that follows imports is bounded.
-/

namespace TemplateContracts

/-- Why a template is not loaded. -/
inductive LoadError where
  | notFound (name : String)
  | malformed (name reason : String)
  deriving DecidableEq, Repr, Inhabited

/-- The failure in words. -/
def LoadError.message : LoadError → String
  | notFound name => "template '" ++ name ++ "' not found"
  | malformed name reason => "template '" ++ name ++ "' could not be parsed: " ++ reason

/-- Templates by name. -/
structure Loader where
  load : String → Except LoadError Template
  /-- Names among which are all that load. -/
  names : List String
  mem_names : ∀ {name : String} {t : Template}, load name = .ok t → name ∈ names

namespace Loader

/-- Loads the first entry of a name. -/
def ofEntries (entries : Assoc Template) : Loader where
  load name :=
    match entries.get? name with
    | some t => .ok t
    | none => .error (.notFound name)
  names := entries.map Prod.fst
  mem_names := by
    intro name t h
    split at h
    · next h' => exact Assoc.mem_keys_of_get? h'
    · cases h

/-- Nothing loads. -/
def empty : Loader := ofEntries []

/-- Templates under their own names; of those with the same name the last counts. -/
def ofTemplates (templates : List Template) : Loader :=
  ofEntries (templates.foldl (fun m t => m.set t.name t) [])

/-- Reads a template from a source under a name, which becomes the template's name. -/
def readSource (reason name text : String) : Except LoadError Template :=
  match Template.ofText? text with
  | some t => .ok { t with name }
  | none => .error (.malformed name reason)

/-- Templates from JSON texts, read on demand; of those with the same name the last counts.  A text
that cannot be read fails for the given reason. -/
def ofSources (reason : String) (sources : List (String × String)) : Loader :=
  let texts : Assoc String := sources.foldl (fun m (name, text) => m.set name text) []
  { load := fun name =>
      match texts.get? name with
      | some text => readSource reason name text
      | none => .error (.notFound name)
    names := texts.map Prod.fst
    mem_names := by
      intro name t h
      split at h
      · next h' => exact Assoc.mem_keys_of_get? h'
      · cases h }

end Loader

/-- What an import statement points at. -/
inductive ImportSource where
  /-- A template whose name is spelled out. -/
  | named (name : String)
  /-- `_self`: the importing template. -/
  | own
  /-- Computed at render time. -/
  | dynamic
  deriving DecidableEq, Repr, Inhabited

/-- What the template of an import points at. -/
def ImportSource.ofExpr : Expr → ImportSource
  | .string _ name => .named name
  | .name _ name => if name = "_self" then .own else .dynamic
  | _ => .dynamic

end TemplateContracts
