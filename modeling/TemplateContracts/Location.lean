/-!
# Positions

A `Span` is the position of a node inside its template; a `Location` adds the template and is what a
finding points at.
-/

namespace TemplateContracts

/-- A line and a column; column zero means that columns were not tracked. -/
structure Span where
  line : UInt32
  column : UInt32 := 0
  deriving DecidableEq, Repr, Inhabited

/-- A template and a line in it. -/
structure Location where
  path : String
  line : UInt32
  deriving DecidableEq, Repr, Inhabited

namespace Span

/-- A span that only knows its line. -/
def ofLine (line : UInt32) : Span := { line }

/-- The place of a span in a template. -/
def inTemplate (s : Span) (path : String) : Location := ⟨path, s.line⟩

/-- `line`, or `line:column` if columns were tracked. -/
def text (s : Span) : String :=
  if s.column = 0 then toString s.line.toNat
  else toString s.line.toNat ++ ":" ++ toString s.column.toNat

end Span

namespace Location

/-- The place of something that came from nowhere. -/
def unknown : Location := ⟨"unknown", 0⟩

/-- `path:line`. -/
def text (l : Location) : String := l.path ++ ":" ++ toString l.line.toNat

/-- The suffix by which messages name their place. -/
def suffix (l : Location) : String := "(at " ++ l.text ++ ")"

end Location

end TemplateContracts
