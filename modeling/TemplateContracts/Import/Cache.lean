import TemplateContracts.Import.Loader
import TemplateContracts.Macro.Signature

/-!
# What a run remembers of its imports

The tables of the templates analysed so far, the failures so far, and the names of the templates
whose analysis has begun and not finished.  A table is published before the imports of its template
are followed, so cycles find it.
-/

namespace TemplateContracts

/-- What is remembered of a name. -/
inductive Cached where
  | ready (table : MacroTable)
  | failed (error : LoadError)
  | missing
  deriving Repr, Inhabited

/-- The state that the templates of one run share. -/
structure ImportCache where
  exports : Assoc MacroTable := []
  failures : Assoc LoadError := []
  /-- Begun and not finished, the latest last. -/
  inFlight : List String := []
  deriving Inhabited

/-- Drops the last occurrence of a name. -/
def eraseLast (names : List String) (name : String) : List String :=
  (names.reverse.erase name).reverse

namespace ImportCache

/-- Nothing remembered. -/
def empty : ImportCache := {}

/-- What is remembered of a name. -/
def get (c : ImportCache) (name : String) : Cached :=
  match c.exports.get? name with
  | some table => .ready table
  | none =>
    match c.failures.get? name with
    | some e => .failed e
    | none => .missing

/-- Publishes a table; the first one of a name counts. -/
def publish (c : ImportCache) (name : String) (table : MacroTable) : ImportCache :=
  { c with exports := c.exports.setIfNew name table }

/-- Remembers a failure; the last one of a name counts. -/
def recordFailure (c : ImportCache) (name : String) (e : LoadError) : ImportCache :=
  { c with failures := c.failures.set name e }

/-- Begins the analysis of a name. -/
def start (c : ImportCache) (name : String) : ImportCache :=
  { c with inFlight := c.inFlight ++ [name] }

/-- Ends the latest analysis of a name. -/
def finish (c : ImportCache) (name : String) : ImportCache :=
  { c with inFlight := eraseLast c.inFlight name }

/-- Whether the analysis of a name has begun and not finished. -/
def isInFlight (c : ImportCache) (name : String) : Bool := c.inFlight.contains name

/-- How many templates have a table. -/
def visited (c : ImportCache) : Nat := c.exports.length

end ImportCache

end TemplateContracts
