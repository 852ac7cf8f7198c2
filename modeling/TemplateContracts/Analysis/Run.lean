import TemplateContracts.Analysis.Walk
import TemplateContracts.Guard.Synthesis
import TemplateContracts.Import.Cache

/-!
# Runs

A run analyses a root template and, once each, the templates it imports.  The macros of a template
are collected and published first; then its imports are followed in order, each in full; then the
template itself is walked with everything it can call.

The visit of an imported template is nested in the visit of the importing one.  A template is
visited only under a name that loads and has no table yet, and publishes its table before it goes
on, so visits never nest deeper than the names that load, and the root.
-/

namespace TemplateContracts

/-- What a run works with. -/
structure Analyzer where
  config : Config := {}
  loader : Loader := .empty
  classes : ClassTable := {}

namespace Analyzer

/-- The outcome of a visit: what is remembered afterwards, and what was logged. -/
abbrev Visit := ImportCache × List Event

/-- The finding of an import that fails. -/
def unresolved (name : String) (e : LoadError) (place : Location) : Diagnostic :=
  .warning .unresolvedImport
    ("Unable to load imported template '" ++ name ++ "': " ++ e.message ++ " " ++ place.suffix)
    place

/-- Follows an import of a named template: its table, if it loads, and the visit it takes. -/
def followNamed (a : Analyzer) (visit : String → Template → ImportCache → Visit) (name : String)
    (place : Location) (cache : ImportCache) : Option MacroTable × Visit :=
  match cache.get name with
  | .ready table =>
    (some table, cache, [if cache.isInFlight name then .importCycle name else .cacheHit name])
  | .failed e => (none, cache, [.reported (unresolved name e place)])
  | .missing =>
    match a.loader.load name with
    | .ok t =>
      let (cache, log) := visit name t cache
      (some t.macroTable, cache, .loading name :: log)
    | .error e =>
      (none, cache.recordFailure name e,
        [.loading name, .loadFailed name e, .reported (unresolved name e place)])

/-- Follows an import: the table it gives, if that is in sight, and the visit it takes. -/
def follow (a : Analyzer) (visit : String → Template → ImportCache → Visit) (path : String)
    (own : MacroTable) (i : Import) (cache : ImportCache) : Option MacroTable × Visit :=
  match ImportSource.ofExpr i.template with
  | .named name => a.followNamed visit name (i.span.inTemplate path) cache
  | .own => (some own, cache, [])
  | .dynamic => (none, cache, [.dynamicImport i.span.line])

/-- Follows imports in order, binding what each of them binds. -/
def followAll (a : Analyzer) (visit : String → Template → ImportCache → Visit) (path : String) :
    List Import → Registry → ImportCache → Registry × Visit
  | [], registry, cache => (registry, cache, [])
  | i :: rest, registry, cache =>
    let (table, cache, log) := a.follow visit path registry.own i cache
    let (registry, cache, more) := a.followAll visit path rest (registry.bind i.kind table) cache
    (registry, cache, log ++ more)

/-- The site of a template with a registry. -/
def site (a : Analyzer) (t : Template) (registry : Registry) : Site :=
  { config := a.config, classes := a.classes, registry, path := t.name }

/-- What a walk logs: what it notices on the way, then its findings. -/
def settle (events : List Event) : List Event :=
  events.filter (!·.isFinding) ++ events.filter (·.isFinding)

/-- The findings of a walk keep their order. -/
theorem findings_settle (events : List Event) :
    Event.findings (settle events) = Event.findings events := by
  have hquiet : Event.findings (events.filter (!·.isFinding)) = [] := by
    rw [Event.findings, List.filterMap_eq_nil_iff]
    intro e he
    have hnot := (List.mem_filter.mp he).2
    cases hf : e.finding? with
    | none => rfl
    | some d => simp [Event.isFinding, hf] at hnot
  have hloud : Event.findings (events.filter (·.isFinding)) = Event.findings events := by
    rw [Event.findings, List.filterMap_filter]
    congr 1
    funext e
    cases hf : e.finding? <;> simp [Event.isFinding, hf]
  rw [settle, Event.findings_append, hquiet, hloud, List.nil_append]

/-- Visits a template under a name; visits nest at most `bound` deep. -/
def visit (a : Analyzer) : (bound : Nat) → String → Template → ImportCache → Visit
  | 0, _, _, cache => (cache, [])
  | bound + 1, name, t, cache =>
    let own := t.macroTable
    let cache := (cache.publish name own).start name
    let (registry, cache, log) := a.followAll (visit a bound) t.name t.imports { own } cache
    (cache.finish name,
      [.entered name t.name, .collected own.length] ++ log ++
        settle ((a.site t registry).walk t.body))

/-- The findings of a visit: those of the imports, then those of the walk. -/
theorem findings_visit (a : Analyzer) (bound : Nat) (name : String) (t : Template)
    (cache : ImportCache) :
    let imported := a.followAll (a.visit bound) t.name t.imports { own := t.macroTable }
      ((cache.publish name t.macroTable).start name)
    Event.findings (a.visit (bound + 1) name t cache).2
      = Event.findings imported.2.2 ++ Event.findings ((a.site t imported.1).walk t.body) := by
  intro imported
  simp only [visit]
  rw [Event.findings_append, Event.findings_append, findings_settle]
  rfl

/-- How deep visits can nest. -/
def depthBound (a : Analyzer) : Nat := a.loader.names.length + 1

/-- The visit of a root template. -/
def visitRoot (a : Analyzer) (t : Template) : Visit := a.visit a.depthBound t.name t .empty

/-- The log of the analysis of a root template. -/
def log (a : Analyzer) (t : Template) : List Event :=
  let (cache, events) := a.visitRoot t
  events ++ [.finished t.name cache.visited]

/-- The findings of the analysis of a root template. -/
def findings (a : Analyzer) (t : Template) : List Diagnostic := Event.findings (a.log t)

theorem findings_eq (a : Analyzer) (t : Template) :
    a.findings t = Event.findings (a.visitRoot t).2 := by
  rw [findings, log, Event.findings_append]
  exact List.append_nil _

/-- The template to render: with guards, if these are enabled. -/
def output (a : Analyzer) (t : Template) : Template :=
  if a.config.isEnabled .typeAssertions then t.instrument else t

end Analyzer

end TemplateContracts
