import TemplateContracts.Assoc
import TemplateContracts.TypeExpr.Basic

/-!
# Variables and their types

A `TypeEnv` is a stack of frames, never empty.  The bottom frame belongs to the template; a macro
body gets a frame of its own and sees nothing of the frames below.

In a frame a name has a stack of entries.  A block entry (a loop target, a parameter) comes with
`push` and goes with `pop`; an accumulated entry (an assignment, a declaration) comes with `add`,
takes the place of the accumulated entry before it, and stays.  The latest entry of either kind
counts.
-/

namespace TemplateContracts

/-- What a frame belongs to. -/
inductive FrameKind where
  | template
  | macroBody
  deriving DecidableEq, Repr, Inhabited

/-- How an entry came about. -/
inductive EntryKind where
  /-- By `add`. -/
  | accumulated
  /-- By `push`. -/
  | block
  deriving DecidableEq, Repr, Inhabited

/-- A declaration of a name. -/
structure Entry where
  kind : EntryKind
  type : TypeExpr
  deriving DecidableEq, Repr, Inhabited

/-- The declarations of one frame: for each name its entries, the latest first. -/
structure Frame where
  kind : FrameKind
  bindings : Assoc (List Entry) := []
  deriving DecidableEq, Repr, Inhabited

namespace Frame

/-- The entries of a name, the latest first. -/
def entries (f : Frame) (name : String) : List Entry := (f.bindings.get? name).getD []

/-- Gives a name its entries; a name without entries is forgotten. -/
def setEntries (f : Frame) (name : String) (es : List Entry) : Frame :=
  { f with
    bindings := if es.isEmpty then f.bindings.erase name else f.bindings.set name es }

/-- The type that counts for a name. -/
def lookup? (f : Frame) (name : String) : Option TypeExpr := (f.entries name).head?.map (·.type)

/-- Declares a name until the frame ends or the next such declaration. -/
def add (f : Frame) (name : String) (type : TypeExpr) : Frame :=
  f.setEntries name (⟨.accumulated, type⟩ :: (f.entries name).filter fun e => e.kind == .block)

/-- Declares a name until it is popped. -/
def push (f : Frame) (name : String) (type : TypeExpr) : Frame :=
  f.setEntries name (⟨.block, type⟩ :: f.entries name)

/-- Takes the latest block entry out of a stack of entries. -/
def takeBlock? : List Entry → Option (TypeExpr × List Entry)
  | [] => none
  | e :: es =>
    match e.kind with
    | .block => some (e.type, es)
    | .accumulated => (takeBlock? es).map fun (t, es) => (t, e :: es)

/-- Undoes the latest `push` of a name, and gives its type. -/
def pop (f : Frame) (name : String) : Option TypeExpr × Frame :=
  match takeBlock? (f.entries name) with
  | some (t, es) => (some t, f.setEntries name es)
  | none => (none, f)

end Frame

/-- Frames, the innermost first. -/
structure TypeEnv where
  innermost : Frame := { kind := .template }
  outer : List Frame := []
  deriving DecidableEq, Repr, Inhabited

namespace TypeEnv

/-- One empty frame, of the template. -/
def empty : TypeEnv := {}

/-- Starts a frame that sees nothing of the others. -/
def pushFrame (env : TypeEnv) (kind : FrameKind) : TypeEnv :=
  { innermost := { kind }, outer := env.innermost :: env.outer }

/-- Leaves the innermost frame; the last one stays. -/
def popFrame (env : TypeEnv) : TypeEnv :=
  match env.outer with
  | [] => env
  | f :: fs => { innermost := f, outer := fs }

/-- Declares a name for good, in the innermost frame. -/
def add (env : TypeEnv) (name : String) (type : TypeExpr) : TypeEnv :=
  { env with innermost := env.innermost.add name type }

/-- Declares several names for good. -/
def addAll (env : TypeEnv) (bindings : List (String × TypeExpr)) : TypeEnv :=
  bindings.foldl (fun env (name, type) => env.add name type) env

/-- Declares a name until it is popped, in the innermost frame. -/
def push (env : TypeEnv) (name : String) (type : TypeExpr) : TypeEnv :=
  { env with innermost := env.innermost.push name type }

/-- Declares several names until they are popped. -/
def pushAll (env : TypeEnv) (names : List String) (type : TypeExpr) : TypeEnv :=
  names.foldl (fun env name => env.push name type) env

/-- Undoes the latest `push` of a name, and gives its type. -/
def pop (env : TypeEnv) (name : String) : Option TypeExpr × TypeEnv :=
  let (type, frame) := env.innermost.pop name
  (type, { env with innermost := frame })

/-- Undoes the latest `push` of each name, the last name first. -/
def popAll (env : TypeEnv) (names : List String) : TypeEnv :=
  names.foldr (fun name env => (env.pop name).2) env

/-- The type of a name in the innermost frame. -/
def lookup? (env : TypeEnv) (name : String) : Option TypeExpr := env.innermost.lookup? name

/-- Whether a name is declared in the innermost frame. -/
def declares (env : TypeEnv) (name : String) : Bool := (env.lookup? name).isSome

/-- The type of a name; `mixed` if it is not declared. -/
def typeOf (env : TypeEnv) (name : String) : TypeExpr := (env.lookup? name).getD .mixed

/-- The kind of the innermost frame. -/
def kind (env : TypeEnv) : FrameKind := env.innermost.kind

/-- Whether the innermost frame is that of a macro body. -/
def inMacro (env : TypeEnv) : Bool := env.kind == .macroBody

/-- The number of frames. -/
def depth (env : TypeEnv) : Nat := env.outer.length + 1

end TypeEnv

end TemplateContracts
