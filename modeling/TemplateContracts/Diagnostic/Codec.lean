import TemplateContracts.Diagnostic.Basic
import TemplateContracts.Json.Decode

/-!
# JSON forms of positions and findings
-/

namespace TemplateContracts

open Json (Field)

namespace Span

/-- The JSON form of a span. -/
def toJson (s : Span) : Json :=
  .object [("line", .nat s.line.toNat), ("column", .nat s.column.toNat)]

/-- A line or column number. -/
def number? (j : Json) : Option UInt32 := (j.natBelow? UInt32.size).map UInt32.ofNat

/-- Reads a span; a missing column is zero. -/
def ofJson? (j : Json) : Option Span := do
  let r ← j.record? ["line", "column"]
  let line ← (r "line").required number?
  let column ← (r "column").withDefault number? 0
  return { line, column }

end Span

namespace Location

/-- The JSON form of a location. -/
def toJson (l : Location) : Json :=
  .object [("path", .string l.path), ("line", .nat l.line.toNat)]

/-- Reads a location. -/
def ofJson? (j : Json) : Option Location := do
  let r ← j.record? ["path", "line"]
  let path ← (r "path").required Json.string?
  let line ← (r "line").required Span.number?
  return { path, line }

end Location

namespace Diagnostic

/-- The JSON form of a finding. -/
def toJson (d : Diagnostic) : Json :=
  .object [("code", .nat d.code.number.toNat), ("severity", .string d.severity.text),
    ("category", .string d.category.text), ("message", .string d.message),
    ("location", d.location.toJson)]

/-- Reads a code. -/
def code? (j : Json) : Option Code := (j.natBelow? UInt16.size).map fun n => ⟨UInt16.ofNat n⟩

/-- Reads a finding, with whatever severity and category it gives. -/
def ofJson? (j : Json) : Option Diagnostic := do
  let r ← j.record? ["code", "severity", "category", "message", "location"]
  let code ← (r "code").required code?
  let severity ← (r "severity").required (Json.oneOf? Severity.text Severity.all)
  let category ← (r "category").required (Json.oneOf? Category.text Category.all)
  let message ← (r "message").required Json.string?
  let location ← (r "location").required Location.ofJson?
  return { code, severity, category, message, location }

end Diagnostic

namespace Diagnostics

/-- The JSON form of a collection. -/
def toJson (ds : Diagnostics) : Json :=
  .object [("entries", .list Diagnostic.toJson ds.entries), ("total_errors", .nat ds.totalErrors),
    ("total_warnings", .nat ds.totalWarnings)]

/-- Reads a collection, with whatever totals it gives. -/
def ofJson? (j : Json) : Option Diagnostics := do
  let r ← j.record? ["entries", "total_errors", "total_warnings"]
  let entries ← (r "entries").required (Json.list? Diagnostic.ofJson?)
  let totalErrors ← (r "total_errors").required (Json.natBelow? UInt64.size)
  let totalWarnings ← (r "total_warnings").required (Json.natBelow? UInt64.size)
  return { entries, totalErrors, totalWarnings }

end Diagnostics

end TemplateContracts
