import TemplateContracts.Analysis.Run
import TemplateContracts.Template.Encode

/-!
# Reports

The result of analysing one template: its findings, its digest and the template to render.
-/

namespace TemplateContracts

/-- The result of analysing one template. -/
structure Report where
  template : String
  /-- The digest of the template as it came in. -/
  fingerprint : String
  diagnostics : Diagnostics
  /-- The template to render. -/
  output : Template

namespace Analyzer

/-- Analyses a template. -/
def analyze (a : Analyzer) (t : Template) : Report :=
  { template := t.name
    fingerprint := t.fingerprint
    diagnostics := .ofList (a.findings t)
    output := a.output t }

end Analyzer

namespace Report

/-- Whether any finding blocks. -/
def hasErrors (r : Report) : Bool := r.diagnostics.hasErrors

/-- The JSON form of a report. -/
def toJson (r : Report) : Json :=
  .object [("template", .string r.template), ("fingerprint", .string r.fingerprint),
    ("diagnostics", r.diagnostics.toJson), ("module", r.output.toJson)]

/-- The JSON text of a report, over several lines. -/
def toText (r : Report) : String := r.toJson.pretty

end Report

end TemplateContracts
