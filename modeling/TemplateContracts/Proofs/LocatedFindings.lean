import TemplateContracts.Analysis.Report
import TemplateContracts.Proofs.ImportRecursion

/-!
# Findings and their places

A finding is made in a dozen places: by the checks of a walk, each at the span of the node that it
looks at, and by an import that fails, at the span of the import.  All of them build a finding from
a code, a message and a place, and put the place into the message as well.

What the checks of single nodes report is carried to whole walks by the induction over the events of
a walk, and to whole runs by the rules of the recursion over imports: a finding of a stretch of a
run is about an import of the template that is being followed, or it is about a template that is
entered in that stretch.

* `analysisKinds` : the codes of an analysis, each with its severity and its category;
* `Diagnostic.IsAt` : a finding of one of these kinds, at a place, that says so in its message;
* `Diagnostic.IsIn` : it is at a node of a template;
* `Site.checksLog_isAt` : every check reports at the span that it is given;
* `Analyzer.Resolves.findings_isIn` : the findings of a stretch of a run;
* `Analyzer.analyze_findings_located` : **every finding of a report is well formed and points into a
  template that was entered**, and the totals of the report count its findings.
-/

namespace TemplateContracts

/-! ### Kinds of findings -/

/-- The codes of an analysis, each with the severity and the category of its findings. -/
def analysisKinds : List (Nat × Severity × Category) :=
  [(100, .error, .type), (101, .deprecation, .type), (102, .error, .type),
   (200, .error, .macros), (201, .error, .macros), (202, .error, .macros), (203, .error, .macros),
   (204, .error, .macros), (205, .warning, .macros),
   (300, .warning, .scope),
   (400, .error, .access), (401, .error, .access), (402, .error, .access),
   (500, .warning, .imports)]

/-- A text stands somewhere in another one. -/
def Quotes (text part : String) : Prop := ∃ before behind, text = before ++ part ++ behind

namespace Quotes

variable {text part : String}

theorem refl (text : String) : Quotes text text := ⟨"", "", by simp⟩

theorem prepend (h : Quotes text part) (before : String) : Quotes (before ++ text) part := by
  obtain ⟨b, e, rfl⟩ := h
  exact ⟨before ++ b, e, by simp only [String.append_assoc]⟩

theorem extend (h : Quotes text part) (behind : String) : Quotes (text ++ behind) part := by
  obtain ⟨b, e, rfl⟩ := h
  exact ⟨b, e ++ behind, by simp only [String.append_assoc]⟩

theorem suffix (l : Location) : Quotes l.suffix l.text := ((refl l.text).prepend "(at ").extend ")"

end Quotes

namespace Diagnostic

/-- A finding of an analysis at a place, which stands in its message. -/
structure IsAt (d : Diagnostic) (place : Location) : Prop where
  kind : (d.code.number.toNat, d.severity, d.category) ∈ analysisKinds
  location : d.location = place
  message : Quotes d.message place.text

theorem isAt_ofCode {severity : Severity} {code : Code} {message : String} {place : Location}
    (hkind : (code.number.toNat, severity, code.category) ∈ analysisKinds)
    (hmessage : Quotes message place.text) : (ofCode severity code message place).IsAt place :=
  ⟨hkind, rfl, hmessage⟩

/-- A finding at a node of a template. -/
def IsIn (d : Diagnostic) (t : Template) : Prop :=
  ∃ n ∈ Stmt.bodyNodes t.body, d.IsAt (n.span.inTemplate t.name)

end Diagnostic

/-! ### Macro calls and declarations -/

namespace Macro

variable {place : Location} {d : Diagnostic}

theorem isAt_tooMany? {s : Signature} {name : String} {n : Nat}
    (h : tooMany? s name n place = some d) : d.IsAt place := by
  unfold tooMany? at h
  split at h
  · cases h
    exact Diagnostic.isAt_ofCode (by decide) ((Quotes.suffix place).prepend _)
  · cases h

theorem isAt_tooFew? {s : Signature} {name : String} {n : Nat}
    (h : tooFew? s name n place = some d) : d.IsAt place := by
  unfold tooFew? at h
  split at h
  · cases h
    exact Diagnostic.isAt_ofCode (by decide) ((Quotes.suffix place).prepend _)
  · cases h

theorem isAt_badNames? {s : Signature} {arguments : List (Argument Expr)}
    (h : badNames? s arguments place = some d) : d.IsAt place := by
  unfold badNames? at h
  dsimp only at h
  split at h
  · cases h
  · cases h
    exact Diagnostic.isAt_ofCode (by decide) ((Quotes.suffix place).prepend _)

theorem isAt_validateCall {c : Config} {s : Signature} {name : String}
    {arguments : List (Argument Expr)} (h : d ∈ validateCall c s name arguments place) :
    d.IsAt place := by
  rcases List.mem_append.mp h with h | h
  · split at h
    · rcases List.mem_append.mp h with h | h
      · exact isAt_tooMany? (Option.mem_toList.mp h)
      · exact isAt_tooFew? (Option.mem_toList.mp h)
    · exact absurd h List.not_mem_nil
  · split at h
    · exact isAt_badNames? (Option.mem_toList.mp h)
    · exact absurd h List.not_mem_nil

theorem isAt_outOfOrder? {arguments : List (Argument Expr)}
    (h : outOfOrder? arguments place = some d) : d.IsAt place := by
  unfold outOfOrder? at h
  split at h
  · cases h
    exact Diagnostic.isAt_ofCode (by decide) ((Quotes.suffix place).prepend _)
  · cases h

theorem isAt_badDeclaration? {s : Signature} (h : badDeclaration? s place = some d) :
    d.IsAt place := by
  obtain ⟨p, -, rfl⟩ := Option.map_eq_some_iff.mp h
  exact Diagnostic.isAt_ofCode (by decide) ((Quotes.suffix place).prepend _)

end Macro

/-! ### The checks of a walk -/

namespace Site

variable {c : Site} {s : Span}

/-- Every finding that the events report is at the span. -/
def ReportsAt (c : Site) (s : Span) (events : List Event) : Prop :=
  ∀ e ∈ events, ∀ d, e.finding? = some d → d.IsAt (c.place s)

theorem reportsAt_nil : c.ReportsAt s [] := fun _ he => absurd he List.not_mem_nil

theorem ReportsAt.append {es es' : List Event} (h : c.ReportsAt s es) (h' : c.ReportsAt s es') :
    c.ReportsAt s (es ++ es') := by
  intro e he
  rcases List.mem_append.mp he with he | he
  · exact h e he
  · exact h' e he

theorem reportsAt_map {ds : List Diagnostic} (h : ∀ d ∈ ds, d.IsAt (c.place s)) :
    c.ReportsAt s (ds.map .reported) := by
  intro e he d hd
  obtain ⟨d', hmem, rfl⟩ := List.mem_map.mp he
  cases hd
  exact h d hmem

theorem reportsAt_reports {i : Inspection} {ds : List Diagnostic}
    (h : ∀ d ∈ ds, d.IsAt (c.place s)) : c.ReportsAt s (c.reports i ds) := by
  unfold reports
  split
  · exact reportsAt_map h
  · exact reportsAt_nil

theorem reportsAt_name (inside : Option String) (n : String) (env : TypeEnv) :
    c.ReportsAt s (c.checkName inside n s env) := by
  cases inside with
  | none => exact reportsAt_nil
  | some macroName =>
    unfold checkName
    dsimp only
    split
    · exact reportsAt_nil
    · apply reportsAt_reports
      intro d hd
      rw [List.mem_singleton.mp hd]
      exact Diagnostic.isAt_ofCode (by decide)
        (((((Quotes.refl _).prepend _).extend _).extend _).extend _)

theorem isAt_refused {code : Code} (e : AccessError)
    (hkind : (code.number.toNat, Severity.error, code.category) ∈ analysisKinds) :
    (c.refused code s e).IsAt (c.place s) :=
  Diagnostic.isAt_ofCode hkind ((Quotes.suffix _).prepend _)

theorem reportsAt_access (receiver : Expr) (attr : String) (access : AccessKind) (env : TypeEnv) :
    c.ReportsAt s (c.checkAccess receiver attr access s env) := by
  have hrefused : ∀ {code : Code} {o : Option AccessError},
      (code.number.toNat, Severity.error, code.category) ∈ analysisKinds →
      ∀ d ∈ (o.map (c.refused code s)).toList, d.IsAt (c.place s) := by
    intro code o hkind d hd
    obtain ⟨e, -, rfl⟩ := Option.map_eq_some_iff.mp (Option.mem_toList.mp hd)
    exact isAt_refused e hkind
  exact (reportsAt_reports (hrefused (by decide))).append
    (reportsAt_reports (hrefused (by decide)))

theorem reportsAt_named (n : String) (arguments : List (Argument Expr)) :
    c.ReportsAt s (c.checkNamed n arguments s) := by
  unfold checkNamed
  split
  · apply reportsAt_reports
    intro d hd
    obtain ⟨reason, -, rfl⟩ := Option.map_eq_some_iff.mp (Option.mem_toList.mp hd)
    exact Diagnostic.isAt_ofCode (by decide) ((Quotes.suffix _).prepend _)
  · exact reportsAt_nil

theorem reportsAt_call (target : MacroTarget) (n : String) (arguments : List (Argument Expr)) :
    c.ReportsAt s (c.checkCall target n arguments s) := by
  apply ReportsAt.append
  · exact reportsAt_reports fun d hd => Macro.isAt_outOfOrder? (Option.mem_toList.mp hd)
  · cases c.registry.resolve target n with
    | resolved sig => exact reportsAt_map fun d hd => Macro.isAt_validateCall hd
    | hidden =>
      intro e he d hd
      rw [List.mem_singleton.mp he] at hd
      cases hd
    | unknown =>
      apply reportsAt_reports
      intro d hd
      rw [List.mem_singleton.mp hd]
      exact Diagnostic.isAt_ofCode (by decide) ((Quotes.suffix _).prepend _)

theorem reportsAt_declaration (d : TypeDecl) (outcome : TypeParser.Outcome) :
    c.ReportsAt s (c.declarationEvents (c.place s) d outcome) := by
  have hinvalid : ∀ {code : Code},
      (code.number.toNat, Severity.error, code.category) ∈ analysisKinds →
      c.ReportsAt s [.reported (invalidType code (c.place s) d)] := by
    intro code hkind
    have hat : (invalidType code (c.place s) d).IsAt (c.place s) :=
      Diagnostic.isAt_ofCode hkind ((Quotes.suffix _).prepend _)
    exact reportsAt_map (List.forall_mem_singleton.mpr hat)
  obtain ⟨result, p⟩ := outcome
  cases result with
  | error err =>
    have hquiet : c.ReportsAt s [.typeError d.name.name err] := by
      intro e he _ hd
      rw [List.mem_singleton.mp he] at hd
      cases hd
    exact hquiet.append (hinvalid (by decide))
  | ok type =>
    apply ReportsAt.append
    · intro e he d' hd'
      obtain ⟨dep, -, rfl⟩ := List.mem_map.mp he
      cases hd'
      exact Diagnostic.isAt_ofCode (by decide)
        (((((Quotes.suffix _).prepend _).extend _).extend _).extend _)
    · split
      · exact reportsAt_nil
      · exact hinvalid (by decide)

theorem reportsAt_signature (n : String) (params : List MacroParam) (body : List Stmt) :
    c.ReportsAt s (c.checkSignature n params body s) :=
  reportsAt_reports fun _ hd => Macro.isAt_badDeclaration? (Option.mem_toList.mp hd)

/-- Every check reports at the span that it is given. -/
theorem checksLog_isAt (c : Site) (S : Span → Prop) :
    c.ChecksLog S fun e => ∀ d, e.finding? = some d → ∃ s, S s ∧ d.IsAt (c.place s) where
  name inside n s env hs e he d hd := ⟨s, hs, reportsAt_name inside n env e he d hd⟩
  access receiver attr access s env hs e he d hd :=
    ⟨s, hs, reportsAt_access receiver attr access env e he d hd⟩
  call target n arguments s hs e he d hd := ⟨s, hs, reportsAt_call target n arguments e he d hd⟩
  named n arguments s hs e he d hd := ⟨s, hs, reportsAt_named n arguments e he d hd⟩
  declaration s decl outcome hs e he d hd := ⟨s, hs, reportsAt_declaration decl outcome e he d hd⟩
  signature n params body s hs e he d hd :=
    ⟨s, hs, reportsAt_signature n params body e he d hd⟩

end Site

/-! ### Walks and imports of a template -/

theorem Event.exists_of_mem_findings {log : List Event} {d : Diagnostic}
    (h : d ∈ findings log) : ∃ e ∈ log, e.finding? = some d := List.mem_filterMap.mp h

/-- The findings of the walk of a template are at its nodes. -/
theorem Analyzer.isIn_of_mem_walk {a : Analyzer} {t : Template} {registry : Registry}
    {d : Diagnostic} (h : d ∈ Event.findings ((a.site t registry).walk t.body)) : d.IsIn t := by
  obtain ⟨e, he, hd⟩ := Event.exists_of_mem_findings h
  have hlog := ((a.site t registry).checksLog_isAt
    fun s => ∃ n ∈ Stmt.bodyNodes t.body, n.span = s).walk t.body (fun n hn => ⟨n, hn, rfl⟩)
  obtain ⟨s, ⟨n, hn, rfl⟩, hat⟩ := hlog e he d hd
  exact ⟨n, hn, hat⟩

/-- An import of a template is a node of it. -/
theorem Template.mem_bodyNodes_of_mem_imports {t : Template} {i : Import} (h : i ∈ t.imports) :
    Node.stmt (.imports i) ∈ Stmt.bodyNodes t.body := by
  rw [mem_imports_iff, ← (Stmt.enumerates_bodyNodes t.body).stmts_eq] at h
  obtain ⟨n, hn, hs⟩ := List.mem_filterMap.mp h
  cases n with
  | expr e tested => cases hs
  | stmt s =>
    cases hs
    exact hn

theorem Analyzer.isAt_unresolved (name : String) (e : LoadError) (place : Location) :
    (unresolved name e place).IsAt place :=
  Diagnostic.isAt_ofCode (by decide) ((Quotes.suffix place).prepend _)

/-! ### Runs -/

namespace Analyzer

variable {a : Analyzer} {path name : String} {is : List Import} {registry registry' : Registry}
  {cache cache' : ImportCache} {log log' : List Event}

/-- A finding about a template that a stretch of a run asked for and entered. -/
def Enters (a : Analyzer) (log : List Event) (d : Diagnostic) : Prop :=
  ∃ k t, .loading k ∈ log ∧ a.loader.load k = .ok t ∧ .entered k t.name ∈ log ∧ d.IsIn t

theorem Enters.mono {d : Diagnostic} (h : a.Enters log d) (hsub : log ⊆ log') :
    a.Enters log' d := by
  obtain ⟨k, t, hloading, hload, hentered, hin⟩ := h
  exact ⟨k, t, hsub hloading, hload, hsub hentered, hin⟩

/-- What a stretch of a run says about one of its findings: it is about an import that was followed,
or about a template that was entered. -/
def Locates (a : Analyzer) (path : String) (is : List Import) (log : List Event)
    (d : Diagnostic) : Prop :=
  (∃ i ∈ is, d.IsAt (i.span.inTemplate path)) ∨ a.Enters log d

/-- One more import in front, and what was logged for it. -/
theorem Locates.cons {d : Diagnostic} {i : Import} (h : a.Locates path is log' d)
    (log : List Event) : a.Locates path (i :: is) (log ++ log') d := by
  rcases h with ⟨j, hj, hat⟩ | hentered
  · exact .inl ⟨j, List.mem_cons_of_mem i hj, hat⟩
  · exact .inr (hentered.mono (List.subset_append_right log log'))

theorem locates_unresolved (k : String) (e : LoadError) (path : String) (i : Import)
    (is : List Import) (log : List Event) :
    a.Locates path (i :: is) log (unresolved k e (i.span.inTemplate path)) :=
  .inl ⟨i, List.mem_cons_self, isAt_unresolved k e _⟩

theorem entered_mem_visitLog (a : Analyzer) (name : String) (t : Template) (registry : Registry)
    (log : List Event) : .entered name t.name ∈ a.visitLog name t registry log :=
  List.mem_append_left _ (List.mem_append_left _ List.mem_cons_self)

theorem subset_visitLog (a : Analyzer) (name : String) (t : Template) (registry : Registry)
    (log : List Event) : log ⊆ a.visitLog name t registry log :=
  fun _ he => List.mem_append_left _ (List.mem_append_right _ he)

/-- The findings of a visit are about its template, or about one that was entered inside. -/
theorem Locates.of_visitLog {t : Template} {d : Diagnostic}
    (h : ∀ d ∈ Event.findings log, a.Locates t.name t.imports log d)
    (hd : d ∈ Event.findings (a.visitLog name t registry log)) : d.IsIn t ∨ a.Enters log d := by
  rw [visitLog, Event.findings_append, Event.findings_append, findings_settle] at hd
  rcases List.mem_append.mp hd with hd | hd
  · rcases h d hd with ⟨i, hi, hat⟩ | hentered
    · exact .inl ⟨_, Template.mem_bodyNodes_of_mem_imports hi, hat⟩
    · exact .inr hentered
  · exact .inl (isIn_of_mem_walk hd)

/-- A visit inside, with what was logged behind it. -/
theorem enters_visited {k : String} {t : Template} {d : Diagnostic}
    (hload : a.loader.load k = .ok t)
    (h : ∀ d ∈ Event.findings log, a.Locates t.name t.imports log d)
    (hd : d ∈ Event.findings (a.visitLog k t registry log)) (behind : List Event) :
    a.Enters (.loading k :: a.visitLog k t registry log ++ behind) d := by
  have hsub : a.visitLog k t registry log ⊆ .loading k :: a.visitLog k t registry log ++ behind :=
    fun _ he => List.mem_append_left _ (List.mem_cons_of_mem _ he)
  rcases Locates.of_visitLog h hd with hin | hentered
  · exact ⟨k, t, List.mem_cons_self, hload, hsub (a.entered_mem_visitLog k t registry log), hin⟩
  · exact hentered.mono (List.Subset.trans (a.subset_visitLog k t registry log) hsub)

/-- The findings of imports that were followed to the end. -/
theorem Resolves.findings_isIn (h : a.Resolves path is registry cache registry' cache' log) :
    ∀ d ∈ Event.findings log, a.Locates path is log d := by
  induction h with
  | nil => exact fun d hd => absurd hd List.not_mem_nil
  | own _ _ ih => exact fun d hd => (ih d hd).cons []
  | dynamic _ _ ih => exact fun d hd => (ih d hd).cons _
  | ready _ _ _ ih =>
    intro d hd
    rw [Event.findings_append] at hd
    rcases List.mem_append.mp hd with hd | hd
    · split at hd <;> exact absurd hd List.not_mem_nil
    · exact (ih d hd).cons _
  | @failed path k i rest _ _ _ _ log e _ _ _ ih =>
    intro d hd
    rw [Event.findings_append] at hd
    rcases List.mem_append.mp hd with hd | hd
    · rw [List.mem_singleton.mp hd]
      exact locates_unresolved k e path i rest _
    · exact (ih d hd).cons _
  | @refused path k i rest _ _ _ _ log e _ _ _ _ ih =>
    intro d hd
    rw [Event.findings_append] at hd
    rcases List.mem_append.mp hd with hd | hd
    · rw [List.mem_singleton.mp hd]
      exact locates_unresolved k e path i rest _
    · exact (ih d hd).cons _
  | visited _ _ hload _ _ ihnested ihrest =>
    intro d hd
    rw [Event.findings_append] at hd
    rcases List.mem_append.mp hd with hd | hd
    · exact .inr (enters_visited hload ihnested hd _)
    · exact (ihrest d hd).cons _

/-- A finding of a run is about a template that the run entered. -/
theorem exists_entered_of_mem_findings (a : Analyzer) (root : Template) {d : Diagnostic}
    (hd : d ∈ a.findings root) :
    ∃ name t, .entered name t.name ∈ a.log root ∧ a.loadFrom root name = .ok t ∧ d.IsIn t := by
  have hvisits := (a.visits_root_iff root (a.visitRoot root)).mpr rfl
  have hlog : ∀ e ∈ (a.visitRoot root).2, e ∈ a.log root := fun e he => List.mem_append_left _ he
  rw [findings_eq] at hd
  generalize a.visitRoot root = v at hvisits hlog hd
  obtain @⟨registry, cache, log, hresolves⟩ := hvisits
  rcases Locates.of_visitLog hresolves.findings_isIn hd with
    hin | ⟨k, t, hloading, hload, hentered, hin⟩
  · exact ⟨root.name, root, hlog _ (a.entered_mem_visitLog root.name root registry log), if_pos rfl,
      hin⟩
  · -- the table of the root is published first, so its name is not asked of the loader
    have hne : k ≠ root.name := by
      rintro rfl
      have hasked : root.name ∈ loadedNames log := List.mem_filterMap.mpr ⟨_, hloading, rfl⟩
      have hnew := hresolves.tracks.fresh _ hasked
      rw [ImportCache.knows_start, ImportCache.knows_publish, decide_eq_true rfl,
        Bool.true_or] at hnew
      cases hnew
    refine ⟨k, t, hlog _ (a.subset_visitLog root.name root registry log hentered), ?_, hin⟩
    rw [loadFrom, if_neg hne, hload]

end Analyzer

/-! ### Totals -/

namespace Diagnostics

/-- Every finding counts in one of the totals. -/
theorem totals_append (ds : Diagnostics) (more : List Diagnostic) :
    (ds.append more).totalErrors = ds.totalErrors + more.countP (·.isError) ∧
      (ds.append more).totalWarnings = ds.totalWarnings + more.countP (!·.isError) := by
  induction more generalizing ds with
  | nil => exact ⟨rfl, rfl⟩
  | cons d rest ih =>
    obtain ⟨herrors, hwarnings⟩ := ih (ds.push d)
    show ((ds.push d).append rest).totalErrors = _ ∧ ((ds.push d).append rest).totalWarnings = _
    rw [herrors, hwarnings, List.countP_cons, List.countP_cons]
    cases h : d.isError
    · simp [push, h]
      omega
    · simp [push, h]
      omega

theorem totals_ofList (entries : List Diagnostic) :
    (ofList entries).totalErrors = entries.countP (·.isError) ∧
      (ofList entries).totalWarnings = entries.countP (!·.isError) := by
  obtain ⟨herrors, hwarnings⟩ := empty.totals_append entries
  exact ⟨herrors.trans (Nat.zero_add _), hwarnings.trans (Nat.zero_add _)⟩

end Diagnostics

/-- **Every finding is well formed and points into a template that was entered.**  A finding of a
report has one of the codes of an analysis, with the severity and the category of that code; its
path is the name of a template that was entered in the run, its line that of a node of the template,
and both stand in its message.  The totals of the report are the numbers of its errors and of its
other findings, so it has errors exactly if some finding is one. -/
theorem Analyzer.analyze_findings_located (a : Analyzer) (root : Template) :
    (∀ d ∈ (a.analyze root).diagnostics.entries,
      (d.code.number.toNat, d.severity, d.category) ∈ analysisKinds ∧
      (∃ name t, .entered name t.name ∈ a.log root ∧ a.loadFrom root name = .ok t ∧
        d.location.path = t.name ∧
        ∃ n ∈ Stmt.bodyNodes t.body, d.location.line = n.span.line) ∧
      ∃ before behind, d.message = before ++ d.location.text ++ behind) ∧
    (a.analyze root).diagnostics.totalErrors
      = (a.analyze root).diagnostics.entries.countP (·.isError) ∧
    (a.analyze root).diagnostics.totalWarnings
      = (a.analyze root).diagnostics.entries.countP (!·.isError) ∧
    ((a.analyze root).hasErrors = true ↔
      ∃ d ∈ (a.analyze root).diagnostics.entries, d.severity = .error) := by
  have hentries : (a.analyze root).diagnostics.entries = a.findings root :=
    Diagnostics.entries_ofList _
  obtain ⟨herrors, hwarnings⟩ : (a.analyze root).diagnostics.totalErrors
        = (a.findings root).countP (·.isError) ∧
      (a.analyze root).diagnostics.totalWarnings
        = (a.findings root).countP (!·.isError) := Diagnostics.totals_ofList _
  rw [hentries]
  refine ⟨?_, herrors, hwarnings, ?_⟩
  · intro d hd
    obtain ⟨name, t, hentered, hload, n, hn, hat⟩ := a.exists_entered_of_mem_findings root hd
    refine ⟨hat.kind, ⟨name, t, hentered, hload, ?_, n, hn, ?_⟩, ?_⟩
    · rw [hat.location]
      rfl
    · rw [hat.location]
      rfl
    · rw [hat.location]
      exact hat.message
  · rw [Report.hasErrors, Diagnostics.hasErrors, herrors, decide_eq_true_iff, List.countP_pos_iff]
    simp only [Diagnostic.isError, beq_iff_eq]

end TemplateContracts
