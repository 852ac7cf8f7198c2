import TemplateContracts.Proofs.ImportRecursion

/-!
# The analysis of templates with guards

Four passes look at the statements of a template: one collects its macros, one searches the body of
a macro for `varargs`, one collects imports, and one is the walk.  None of them tells a `types`
statement from the same statement with guards, at any depth.  So guards may be put into the root of
a run, and into any of the templates it imports, without a trace in its log.

* `Stmt.Alike` : no pass tells two statements apart;
* `Stmt.alike_cases` : a statement and the same statement with its guards are alike;
* `Loader.AddsGuards` : a loader gives some of the templates of another one with their guards;
* `Analyzer.Resolves.addsGuards` : following imports takes the same course under both loaders;
* `Analyzer.findings_instrument` : **guards change no finding of a run**.
-/

namespace TemplateContracts

/-! ### Statements that no pass tells apart -/

namespace Stmt

/-- No pass tells two statements apart. -/
structure Alike (s s' : Stmt) : Prop where
  exprs_eq : s'.exprs = s.exprs
  imports_eq : s'.allImports = s.allImports
  signatures_eq : s'.signatures = s.signatures
  walk_eq : ∀ (c : Site) (inside : Option String), c.checkStmt inside s' = c.checkStmt inside s

/-- No pass tells two lists of statements apart. -/
structure BodiesAlike (body body' : List Stmt) : Prop where
  exprs_eq : bodyExprs body' = bodyExprs body
  imports_eq : bodyImports body' = bodyImports body
  signatures_eq : bodySignatures body' = bodySignatures body
  walk_eq : ∀ (c : Site) (inside : Option String),
    c.checkBody inside body' = c.checkBody inside body

/-- No pass tells two lists of branches apart. -/
structure BranchesAlike (branches branches' : List (Branch Stmt)) : Prop where
  exprs_eq : branchesExprs branches' = branchesExprs branches
  imports_eq : branchesImports branches' = branchesImports branches
  signatures_eq : branchesSignatures branches' = branchesSignatures branches
  walk_eq : ∀ (c : Site) (inside : Option String),
    c.checkBranches inside branches' = c.checkBranches inside branches

theorem Alike.refl (s : Stmt) : s.Alike s := ⟨rfl, rfl, rfl, fun _ _ => rfl⟩

theorem Alike.cons {s s' : Stmt} {body body' : List Stmt} (h : s.Alike s')
    (hrest : BodiesAlike body body') : BodiesAlike (s :: body) (s' :: body') := by
  refine ⟨?_, ?_, ?_, ?_⟩
  · rw [bodyExprs, bodyExprs, h.exprs_eq, hrest.exprs_eq]
  · rw [bodyImports, bodyImports, h.imports_eq, hrest.imports_eq]
  · rw [bodySignatures, bodySignatures, h.signatures_eq, hrest.signatures_eq]
  · intro c inside
    rw [Site.checkBody, Site.checkBody, h.walk_eq, hrest.walk_eq]

theorem BodiesAlike.branches_cons {body body' : List Stmt} {branches branches' : List (Branch Stmt)}
    (h : BodiesAlike body body') (hrest : BranchesAlike branches branches') (condition : Expr) :
    BranchesAlike (⟨condition, body⟩ :: branches) (⟨condition, body'⟩ :: branches') := by
  refine ⟨?_, ?_, ?_, ?_⟩
  · rw [branchesExprs, branchesExprs, h.exprs_eq, hrest.exprs_eq]
  · rw [branchesImports, branchesImports, h.imports_eq, hrest.imports_eq]
  · rw [branchesSignatures, branchesSignatures, h.signatures_eq, hrest.signatures_eq]
  · intro c inside
    rw [Site.checkBranches, Site.checkBranches, h.walk_eq, hrest.walk_eq]

/-- The signature of a macro depends on its body through the variables that the body reads. -/
theorem BodiesAlike.ofDecl_eq {body body' : List Stmt} (h : BodiesAlike body body') (name : String)
    (params : List MacroParam) :
    Signature.ofDecl name params body' = Signature.ofDecl name params body := by
  have hreads : Signature.readsVarargs body' = Signature.readsVarargs body := by
    rw [Signature.readsVarargs, Signature.readsVarargs, h.exprs_eq]
  rw [Signature.ofDecl, Signature.ofDecl, hreads]

theorem BodiesAlike.loop {body body' orElse orElse' : List Stmt} (hb : BodiesAlike body body')
    (he : BodiesAlike orElse orElse') (key : Option Ident) (value : Ident) (source : Expr)
    (sp : Span) :
    (Stmt.loop key value source body orElse sp).Alike
      (.loop key value source body' orElse' sp) := by
  refine ⟨?_, ?_, ?_, ?_⟩
  · rw [exprs, exprs, hb.exprs_eq, he.exprs_eq]
  · rw [allImports, allImports, hb.imports_eq, he.imports_eq]
  · rw [signatures, signatures, hb.signatures_eq, he.signatures_eq]
  · intro c inside
    rw [Site.checkStmt, Site.checkStmt, hb.walk_eq, he.walk_eq]

theorem BranchesAlike.branch {branches branches' : List (Branch Stmt)} {orElse orElse' : List Stmt}
    (hb : BranchesAlike branches branches') (he : BodiesAlike orElse orElse') (sp : Span) :
    (Stmt.branch branches orElse sp).Alike (.branch branches' orElse' sp) := by
  refine ⟨?_, ?_, ?_, ?_⟩
  · rw [exprs, exprs, hb.exprs_eq, he.exprs_eq]
  · rw [allImports, allImports, hb.imports_eq, he.imports_eq]
  · rw [signatures, signatures, hb.signatures_eq, he.signatures_eq]
  · intro c inside
    rw [Site.checkStmt, Site.checkStmt, hb.walk_eq, he.walk_eq]

/-- A macro: its signature is read off its body once when macros are collected, and once more by the
walk. -/
theorem BodiesAlike.macroDecl {body body' : List Stmt} (h : BodiesAlike body body') (name : Ident)
    (params : List MacroParam) (sp : Span) :
    (Stmt.macroDecl name params body sp).Alike (.macroDecl name params body' sp) := by
  have hsig := h.ofDecl_eq name.name params
  refine ⟨?_, ?_, ?_, ?_⟩
  · rw [exprs, exprs, h.exprs_eq]
  · rw [allImports, allImports, h.imports_eq]
  · rw [signatures, signatures, hsig]
  · intro c inside
    have hcheck : c.checkSignature name.name params body' sp
        = c.checkSignature name.name params body sp := by
      rw [Site.checkSignature, Site.checkSignature, hsig]
    rw [Site.checkStmt, Site.checkStmt, hcheck, h.walk_eq]

/-- **No pass tells a statement from the same statement with its guards**, nor a list of statements,
nor branches. -/
theorem alike_cases : Cases (fun s => s.Alike s.instrument)
    (fun body => BodiesAlike body (instrumentBody body))
    (fun branches => BranchesAlike branches (instrumentBranches branches)) where
  text _ _ := .refl _
  print _ _ := .refl _
  types _ := ⟨rfl, rfl, rfl, fun _ _ => rfl⟩
  guarded _ _ := .refl _
  assign _ _ _ := .refl _
  loop key value source _ _ sp hbody helse := hbody.loop helse key value source sp
  branch _ _ sp hbranches helse := hbranches.branch helse sp
  macroDecl name params _ sp hbody := hbody.macroDecl name params sp
  imports _ := .refl _
  body_nil := ⟨rfl, rfl, rfl, fun _ _ => rfl⟩
  body_cons _ _ hs hrest := hs.cons hrest
  branches_nil := ⟨rfl, rfl, rfl, fun _ _ => rfl⟩
  branches_cons condition _ _ hbody hrest := hbody.branches_cons hrest condition

theorem bodiesAlike_instrument (body : List Stmt) : BodiesAlike body (instrumentBody body) :=
  alike_cases.body body

end Stmt

namespace Template

theorem imports_instrument (t : Template) : t.instrument.imports = t.imports :=
  (Stmt.bodiesAlike_instrument t.body).imports_eq

theorem macroTable_instrument (t : Template) : t.instrument.macroTable = t.macroTable := by
  show MacroTable.ofBody (Stmt.instrumentBody t.body) = MacroTable.ofBody t.body
  rw [MacroTable.ofBody, MacroTable.ofBody, (Stmt.bodiesAlike_instrument t.body).signatures_eq]

end Template

theorem Site.walk_instrument (c : Site) (t : Template) :
    c.walk t.instrument.body = c.walk t.body := by
  show (c.checkBody none (Stmt.instrumentBody t.body) .empty).2 = _
  rw [(Stmt.bodiesAlike_instrument t.body).walk_eq]
  rfl

/-! ### Runs -/

/-- `loader'` answers as `loader` does, but may give a template with its guards.  Which templates it
gives so may differ from name to name. -/
def Loader.AddsGuards (loader loader' : Loader) : Prop :=
  ∀ name, loader'.load name = loader.load name ∨
    loader'.load name = (loader.load name).map Template.instrument

theorem Loader.AddsGuards.load_error {loader loader' : Loader} (h : loader.AddsGuards loader')
    {name : String} {e : LoadError} (he : loader.load name = .error e) :
    loader'.load name = .error e := by
  rcases h name with hl | hl
  · rw [hl, he]
  · rw [hl, he]
    rfl

theorem Loader.AddsGuards.load_ok {loader loader' : Loader} (h : loader.AddsGuards loader')
    {name : String} {t : Template} (ht : loader.load name = .ok t) :
    loader'.load name = .ok t ∨ loader'.load name = .ok t.instrument := by
  rcases h name with hl | hl
  · exact .inl (hl.trans ht)
  · right
    rw [hl, ht]
    rfl

namespace Analyzer

variable {a : Analyzer} {path : String} {is : List Import} {registry registry' : Registry}
  {cache cache' : ImportCache} {log : List Event}

/-- The visit of a template with guards logs what the visit of the template logs. -/
theorem visitLog_instrument (a : Analyzer) (loader' : Loader) (name : String) (t : Template)
    (registry : Registry) (log : List Event) :
    ({ a with loader := loader' } : Analyzer).visitLog name t.instrument registry log
      = a.visitLog name t registry log := by
  show [Event.entered name t.name, .collected t.instrument.macroTable.length] ++ log ++
      settle ((a.site t registry).walk t.instrument.body) = _
  rw [t.macroTable_instrument, Site.walk_instrument]
  rfl

/-- Following imports takes the same course if the loader adds guards: the rules ask of a template
for its name, its imports, its macros and its walk, and for nothing else. -/
theorem Resolves.addsGuards (h : a.Resolves path is registry cache registry' cache' log)
    {loader' : Loader} (hl : a.loader.AddsGuards loader') :
    ({ a with loader := loader' } : Analyzer).Resolves path is registry cache registry' cache'
      log := by
  induction h with
  | nil => exact .nil
  | own hs _ ih => exact .own hs ih
  | dynamic hs _ ih => exact .dynamic hs ih
  | ready hs hget _ ih => exact .ready hs hget ih
  | failed hs hget _ ih => exact .failed hs hget ih
  | refused hs hget hload _ ih => exact .refused hs hget (hl.load_error hload) ih
  | @visited path k i rest registry registry' inner cache cache' between log nested t hs hget hload
      hnested hrest ihnested ihrest =>
    rcases hl.load_ok hload with hload' | hload'
    · exact .visited hs hget hload' ihnested ihrest
    · -- the nested visit goes over other statements, but to the same imports
      rw [← t.imports_instrument, ← t.macroTable_instrument] at ihnested
      rw [← t.macroTable_instrument] at ihrest
      rw [← a.visitLog_instrument loader' k t inner nested]
      exact .visited hs hget hload' ihnested ihrest

/-- A run on a template with guards, with a loader that adds guards, has the same log. -/
theorem log_instrument (a : Analyzer) (t : Template) {loader' : Loader}
    (hl : a.loader.AddsGuards loader') :
    ({ a with loader := loader' } : Analyzer).log t.instrument = a.log t := by
  have hroot := (a.visits_root_iff t (a.visitRoot t)).mpr rfl
  have hsame : a.visitRoot t
      = ({ a with loader := loader' } : Analyzer).visitRoot t.instrument := by
    rw [← visits_root_iff]
    generalize a.visitRoot t = v at hroot
    obtain @⟨registry, cache', log, hresolves⟩ := hroot
    have hresolves' := hresolves.addsGuards hl
    rw [← t.imports_instrument, ← t.macroTable_instrument] at hresolves'
    rw [← a.visitLog_instrument loader' t.name t registry log]
    exact .mk hresolves'
  simp only [log, hsame]
  rfl

/-- **Guards change no finding.**  A run on a template with its guards, whose loader gives any of
the other templates with or without their guards, reports the findings of the run without guards, in
the same order. -/
theorem findings_instrument (a : Analyzer) (t : Template) {loader' : Loader}
    (hl : a.loader.AddsGuards loader') :
    ({ a with loader := loader' } : Analyzer).findings t.instrument = a.findings t := by
  rw [findings, findings, log_instrument a t hl]

/-- A library whose macro declares a type that cannot be read. -/
def library : Template where
  name := "library"
  body :=
    [.macroDecl ⟨"field", .ofLine 1⟩ []
      [.types ⟨[⟨⟨"x", .ofLine 2⟩, "strin", false⟩], .ofLine 2⟩] (.ofLine 1)]
  span := .ofLine 1

/-- A page that imports the library twice, once inside a loop, and passes too much to its macro. -/
def page : Template where
  name := "page"
  body :=
    [.types ⟨[⟨⟨"title", .ofLine 1⟩, "string", false⟩], .ofLine 1⟩,
     .imports ⟨.string (.ofLine 2) "library", .whole ⟨"lib", .ofLine 2⟩, .ofLine 2⟩,
     .loop none ⟨"row", .ofLine 3⟩ (.name (.ofLine 3) "rows")
      [.imports ⟨.string (.ofLine 4) "library", .whole ⟨"again", .ofLine 4⟩, .ofLine 4⟩,
       .types ⟨[⟨⟨"row", .ofLine 5⟩, "?number", true⟩], .ofLine 5⟩] [] (.ofLine 3),
     .print (.macroCall (.ofLine 6) (.inNamespace "again") "field"
      [⟨none, .name (.ofLine 6) "title"⟩]) (.ofLine 6)]
  span := .ofLine 1

theorem addsGuards_library :
    (Loader.ofTemplates [library]).AddsGuards (Loader.ofTemplates [library.instrument]) := by
  intro name
  by_cases hn : "library" = name
  · right
    subst hn
    rfl
  · left
    simp [Loader.ofTemplates, Loader.ofEntries, Assoc.set, Assoc.get?, library,
      Template.instrument, hn]

theorem findings_instrument_page :
    (Loader.ofTemplates [library]).AddsGuards (Loader.ofTemplates [library.instrument]) ∧
      ({ loader := .ofTemplates [library.instrument] } : Analyzer).findings page.instrument
        = [.error .invalidTypeSyntax "Invalid type 'strin' for variable 'x' (at library:2)"
            ⟨"library", 2⟩,
           .error .tooManyArguments "Too many arguments (1) for macro 'field' (at page:6)"
            ⟨"page", 6⟩] :=
  ⟨addsGuards_library,
    (findings_instrument { loader := .ofTemplates [library] } page addsGuards_library).trans
      (by decide)⟩

end Analyzer

end TemplateContracts
