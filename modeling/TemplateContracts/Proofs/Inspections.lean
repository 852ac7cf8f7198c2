import TemplateContracts.Analysis.Run
import TemplateContracts.Proofs.ScopeRefinement

/-!
# Inspections are independent filters

Every code of a finding belongs to one inspection, except the code of an import that fails, which no
inspection switches off.  Switching inspections off takes their findings out of a run and does
nothing else: no declaration is missed, no part of a template is passed over and no import is
skipped because some check is off.

* `Code.inspection?` : the inspection that a code belongs to;
* `Config.keeps` : whether a configuration keeps a finding;
* `Site.Gates` : which inspections the findings of a single check belong to;
* `Site.Filtered` : findings which under any configuration are those with every inspection enabled,
  filtered by what the configuration keeps;
* `Site.filtered_stmtCases` : the findings of every statement are filtered;
* `Analyzer.visit_filtered` : so are those of every visit, whatever is remembered before it;
* `Analyzer.findings_eq_filter` : so are those of a whole run.
-/

namespace TemplateContracts

/-- The inspection that reports the findings of a code. -/
def Code.inspection? (c : Code) : Option Inspection :=
  match c.number.toNat with
  | 100 | 101 | 102 => some .invalidTypes
  | 200 => some .unknownMacro
  | 201 | 202 => some .badArgumentCount
  | 203 => some .invalidNamedArgument
  | 204 => some .positionalAfterNamed
  | 205 => some .requiredAfterOptional
  | 300 => some .undeclaredVariableInMacro
  | 400 => some .invalidDotOperation
  | 401 => some .invalidEnumCase
  | 402 => some .invalidConstant
  | _ => none

namespace Config

/-- Whether a configuration keeps a finding: it is about an import that fails, or its inspection is
enabled. -/
def keeps (c : Config) (d : Diagnostic) : Bool :=
  d.code == .unresolvedImport || d.code.inspection?.any c.isEnabled

/-- The same configuration with every inspection enabled. -/
def enableAll (c : Config) : Config := { c with isEnabled := fun _ => true }

theorem keeps_of_inspection {c : Config} {d : Diagnostic} {i : Inspection}
    (h : d.code.inspection? = some i) : c.keeps d = c.isEnabled i := by
  have hcode : (d.code == Code.unresolvedImport) = false := by
    rw [beq_eq_false_iff_ne]
    intro he
    rw [he] at h
    cases h
  rw [keeps, hcode, h]
  rfl

end Config

/-- The same site with every inspection enabled. -/
def Site.enableAll (c : Site) : Site := { c with config := c.config.enableAll }

/-- The same analyzer with every inspection enabled. -/
def Analyzer.enableAll (a : Analyzer) : Analyzer := { a with config := a.config.enableAll }

/-! ### Findings and their inspections -/

/-- Every finding belongs to the inspection. -/
def Owned (i : Inspection) (ds : List Diagnostic) : Prop :=
  ∀ d ∈ ds, d.code.inspection? = some i

theorem Owned.filter_keeps {i : Inspection} {ds : List Diagnostic} (h : Owned i ds) (c : Config) :
    ds.filter c.keeps = if c.isEnabled i then ds else [] := by
  by_cases hi : c.isEnabled i = true
  · rw [if_pos hi, List.filter_eq_self]
    intro d hd
    rw [Config.keeps_of_inspection (h d hd), hi]
  · rw [if_neg hi, List.filter_eq_nil_iff]
    intro d hd
    rw [Config.keeps_of_inspection (h d hd)]
    exact hi

theorem Owned.toList_map {α : Type} {i : Inspection} {o : Option α} {f : α → Diagnostic}
    (h : ∀ x, (f x).code.inspection? = some i) : Owned i (o.map f).toList := by
  intro d hd
  obtain ⟨x, -, rfl⟩ : ∃ x, o = some x ∧ f x = d := by simpa using hd
  exact h x

theorem Owned.append {i : Inspection} {ds es : List Diagnostic} (hd : Owned i ds)
    (he : Owned i es) : Owned i (ds ++ es) := by
  intro d h
  rcases List.mem_append.mp h with h | h
  · exact hd d h
  · exact he d h

theorem Owned.nil {i : Inspection} : Owned i [] := by
  intro d hd
  exact absurd hd List.not_mem_nil

theorem Owned.singleton {i : Inspection} {d : Diagnostic} (h : d.code.inspection? = some i) :
    Owned i [d] := by
  intro e he
  rw [List.mem_singleton.mp he]
  exact h

theorem Owned.toList_ite {i : Inspection} {p : Prop} [Decidable p] {d : Diagnostic}
    (h : d.code.inspection? = some i) :
    Owned i (if p then some d else none : Option Diagnostic).toList := by
  split
  · exact Owned.singleton h
  · exact Owned.nil

namespace Macro

theorem owned_outOfOrder? (arguments : List (Argument Expr)) (place : Location) :
    Owned .positionalAfterNamed (outOfOrder? arguments place).toList :=
  Owned.toList_ite rfl

theorem owned_counts (s : Signature) (name : String) (n : Nat) (place : Location) :
    Owned .badArgumentCount
      ((tooMany? s name n place).toList ++ (tooFew? s name n place).toList) := by
  apply Owned.append
  · exact Owned.toList_ite rfl
  · exact Owned.toList_ite rfl

theorem owned_badNames? (s : Signature) (arguments : List (Argument Expr)) (place : Location) :
    Owned .invalidNamedArgument (badNames? s arguments place).toList := by
  unfold badNames?
  dsimp only
  split
  · exact Owned.nil
  · exact Owned.singleton rfl

theorem owned_badDeclaration? (s : Signature) (place : Location) :
    Owned .requiredAfterOptional (badDeclaration? s place).toList :=
  Owned.toList_map fun _ => rfl

end Macro

namespace Site

theorem owned_declarationEvents (c : Site) (place : Location) (d : TypeDecl)
    (outcome : TypeParser.Outcome) :
    Owned .invalidTypes (Event.findings (c.declarationEvents place d outcome)) := by
  obtain ⟨result, p⟩ := outcome
  cases result with
  | error e => exact Owned.singleton rfl
  | ok type =>
    rw [declarationEvents, Event.findings_append]
    refine Owned.append ?_ ?_
    · rw [show p.deprecations.map (fun dep => Event.reported (deprecatedType place dep))
          = (p.deprecations.map (deprecatedType place)).map .reported by simp,
        Event.findings_map_reported]
      intro e he
      obtain ⟨dep, -, rfl⟩ := List.mem_map.mp he
      rfl
    · split
      · exact Owned.nil
      · exact Owned.singleton rfl

/-! ### Which inspections report what -/

/-- `ds` are findings of the given inspections, those of each only if it is enabled; `every` are the
findings with all of them enabled. -/
inductive Gates (c : Site) (is : List Inspection) : List Diagnostic → List Diagnostic → Prop where
  | nil : Gates c is [] []
  | gated {i : Inspection} {ds : List Diagnostic} :
      i ∈ is → Owned i ds → Gates c is (c.gated i ds) ds
  | append {ds es every every' : List Diagnostic} :
      Gates c is ds every → Gates c is es every' → Gates c is (ds ++ es) (every ++ every')

theorem Gates.eq_filter {c : Site} {is : List Inspection} {ds every : List Diagnostic}
    (h : c.Gates is ds every) : ds = every.filter c.config.keeps := by
  induction h with
  | nil => rfl
  | gated _ howned => rw [howned.filter_keeps, Site.gated]
  | append _ _ ihd ihe => rw [List.filter_append, ← ihd, ← ihe]

theorem gates_name (c : Site) (inside : Option String) (n : String) (s : Span) (m : Scope) :
    c.Gates [.undeclaredVariableInMacro] (c.nameFindings inside n s m)
      (c.enableAll.nameFindings inside n s m) := by
  cases inside with
  | none => exact .nil
  | some macroName =>
    show c.Gates _ (if (m n).isSome || c.isImplicit n then [] else c.gated _ _)
      (if (m n).isSome || c.isImplicit n then [] else [c.undeclared macroName n s])
    split
    · exact .nil
    · exact .gated List.mem_cons_self (Owned.singleton rfl)

theorem gates_access (c : Site) (receiver : Expr) (attr : String) (access : AccessKind)
    (s : Span) (m : Scope) :
    c.Gates [.invalidEnumCase, .invalidDotOperation] (c.accessFindings receiver attr access s m)
      (c.enableAll.accessFindings receiver attr access s m) := by
  apply Gates.append
  · exact .gated (by decide) (Owned.toList_map fun _ => rfl)
  · exact .gated (by decide) (Owned.toList_map fun _ => rfl)

theorem gates_named (c : Site) (n : String) (arguments : List (Argument Expr)) (s : Span) :
    c.Gates [.invalidConstant] (c.namedFindings n arguments s)
      (c.enableAll.namedFindings n arguments s) := by
  by_cases hn : n = "constant"
  · simp only [namedFindings, checkNamed, hn, if_true, checkConstant, findings_reports]
    exact .gated (by decide) (Owned.toList_map fun _ => rfl)
  · simp only [namedFindings, checkNamed, hn, if_false]
    exact .nil

/-- The findings of a macro call that are due to what it resolves to. -/
def resolutionFindings (c : Site) (n : String) (arguments : List (Argument Expr)) (s : Span) :
    Resolution → List Diagnostic
  | .resolved sig =>
    c.gated .badArgumentCount
      ((Macro.tooMany? sig n arguments.length (c.place s)).toList ++
        (Macro.tooFew? sig n arguments.length (c.place s)).toList) ++
    c.gated .invalidNamedArgument (Macro.badNames? sig arguments (c.place s)).toList
  | .hidden => []
  | .unknown => c.gated .unknownMacro
      [.error .unknownMacro ("Unknown macro '" ++ n ++ "' " ++ (c.place s).suffix) (c.place s)]

theorem callFindings_eq (c : Site) (target : MacroTarget) (n : String)
    (arguments : List (Argument Expr)) (s : Span) :
    c.callFindings target n arguments s =
      c.gated .positionalAfterNamed (Macro.outOfOrder? arguments (c.place s)).toList ++
        c.resolutionFindings n arguments s (c.registry.resolve target n) := by
  rw [callFindings, checkCall, Event.findings_append, findings_reports]
  congr 1
  cases c.registry.resolve target n with
  | resolved sig => exact Event.findings_map_reported _
  | hidden => rfl
  | unknown => exact findings_reports c _ _

/-- The inspections of macro calls. -/
def callInspections : List Inspection :=
  [.positionalAfterNamed, .badArgumentCount, .invalidNamedArgument, .unknownMacro]

theorem gates_resolution (c : Site) (n : String) (arguments : List (Argument Expr)) (s : Span)
    (r : Resolution) :
    c.Gates callInspections (c.resolutionFindings n arguments s r)
      (c.enableAll.resolutionFindings n arguments s r) := by
  cases r with
  | resolved sig =>
    apply Gates.append
    · exact .gated (by decide) (Macro.owned_counts _ _ _ _)
    · exact .gated (by decide) (Macro.owned_badNames? _ _ _)
  | hidden => exact .nil
  | unknown => exact .gated (by decide) (Owned.singleton rfl)

theorem gates_call (c : Site) (target : MacroTarget) (n : String)
    (arguments : List (Argument Expr)) (s : Span) :
    c.Gates callInspections (c.callFindings target n arguments s)
      (c.enableAll.callFindings target n arguments s) := by
  rw [callFindings_eq, callFindings_eq]
  apply Gates.append
  · exact .gated (by decide) (Macro.owned_outOfOrder? _ _)
  · -- a call resolves to the same macro whatever is enabled
    exact c.gates_resolution n arguments s (c.registry.resolve target n)

theorem gates_types (c : Site) (a : Contract) :
    c.Gates [.invalidTypes] (c.typesFindings a) (c.enableAll.typesFindings a) := by
  unfold typesFindings
  induction a.mapping with
  | nil => exact .nil
  | cons d rest ih =>
    have howned := c.owned_declarationEvents (c.place a.span) d (TypeParser.ofText d.typeText).parse
    exact (Gates.gated List.mem_cons_self howned).append ih

theorem gates_signature (c : Site) (n : String) (params : List MacroParam) (body : List Stmt)
    (s : Span) :
    c.Gates [.requiredAfterOptional] (c.signatureFindings n params body s)
      (c.enableAll.signatureFindings n params body s) := by
  simp only [signatureFindings, checkSignature, findings_reports]
  exact .gated (by decide) (Macro.owned_badDeclaration? _ _)

/-! ### Findings that a configuration only filters -/

/-- Findings that are those with every inspection enabled, filtered by what is kept. -/
def Filtered (f : Site → List Diagnostic) : Prop :=
  ∀ c : Site, f c = (f c.enableAll).filter c.config.keeps

theorem filtered_nil : Filtered fun _ => [] := fun _ => rfl

theorem Filtered.append {f g : Site → List Diagnostic} (hf : Filtered f) (hg : Filtered g) :
    Filtered fun c => f c ++ g c := by
  intro c
  rw [List.filter_append, ← hf c, ← hg c]

theorem filtered_of_gates {is : List Inspection} {f : Site → List Diagnostic}
    (h : ∀ c : Site, c.Gates is (f c) (f c.enableAll)) : Filtered f :=
  fun c => (h c).eq_filter

theorem filtered_named (n : String) (arguments : List (Argument Expr)) (s : Span) :
    Filtered fun c => c.namedFindings n arguments s :=
  filtered_of_gates fun c => c.gates_named n arguments s

/-! ### Expressions and statements -/

/-- The findings of every expression are filtered. -/
theorem filtered_exprCases (inside : Option String) : Expr.Cases
    (fun e => ∀ m, Filtered fun c => c.exprFindings inside e m)
    (fun items => ∀ m, Filtered fun c => c.exprsFindings inside items m)
    (fun pairs => ∀ m, Filtered fun c => c.pairsFindings inside pairs m)
    (fun arguments => ∀ m, Filtered fun c => c.argumentsFindings inside arguments m) where
  null _ _ := filtered_nil
  bool _ _ _ := filtered_nil
  number _ _ _ := filtered_nil
  string _ _ _ := filtered_nil
  array _ _ hitems := hitems
  hash _ _ hpairs := hpairs
  name s n m := filtered_of_gates fun c => c.gates_name inside n s m
  member s receiver attr access _ hreceiver harguments m := by
    have haccess := filtered_of_gates fun c => c.gates_access receiver attr access s m
    exact (haccess.append (hreceiver m)).append (harguments m)
  macroCall s target n arguments harguments m := by
    have hcall := filtered_of_gates fun c => c.gates_call target n arguments s
    exact hcall.append (harguments m)
  function s n arguments harguments m := (filtered_named n arguments s).append (harguments m)
  filter _ _ _ _ hinput harguments m := (hinput m).append (harguments m)
  test s input n arguments hinput hinner harguments m := by
    cases input, n using Expr.testCases with
    | name sp x =>
      simp only [exprFindings_test_name]
      exact harguments m
    | function sp f inner =>
      simp only [exprFindings_test_function]
      exact (hinner m).append (harguments m)
    | defined input hname hfunction =>
      simp only [exprFindings_test_defined _ _ _ _ hname hfunction]
      exact (hinput m).append (harguments m)
    | other input n hn =>
      simp only [exprFindings_test_other _ _ _ _ hn]
      exact ((hinput m).append (filtered_named n arguments s)).append (harguments m)
  lambda _ _ _ hbody _ := hbody _
  binary _ _ _ _ hleft hright m := (hleft m).append (hright m)
  unary _ _ _ hoperand := hoperand
  conditional _ _ _ _ hcondition hyes hno m := ((hcondition m).append (hyes m)).append (hno m)
  items_nil _ := filtered_nil
  items_cons _ _ he hrest m := (he m).append (hrest m)
  pairs_nil _ := filtered_nil
  pairs_cons _ _ _ hk hv hrest m := ((hk m).append (hv m)).append (hrest m)
  arguments_nil _ := filtered_nil
  arguments_cons _ _ _ he hrest m := (he m).append (hrest m)

theorem filtered_expr (inside : Option String) (e : Expr) (m : Scope) :
    Filtered fun c => c.exprFindings inside e m :=
  (filtered_exprCases inside).expr e m

theorem filtered_exprs (inside : Option String) (items : List Expr) (m : Scope) :
    Filtered fun c => c.exprsFindings inside items m :=
  (filtered_exprCases inside).items items m

/-- The findings of every statement are filtered: the map behind a statement is the same whatever is
enabled. -/
theorem filtered_stmtCases : Stmt.Cases
    (fun s => ∀ inside m, Filtered fun c => c.stmtFindings inside s m)
    (fun body => ∀ inside m, Filtered fun c => c.bodyFindings inside body m)
    (fun branches => ∀ inside m, Filtered fun c => c.branchesFindings inside branches m) where
  text _ _ _ _ := filtered_nil
  print e _ inside m := filtered_expr inside e m
  types a _ _ := filtered_of_gates fun c => c.gates_types a
  guarded a _ _ _ := filtered_of_gates fun c => c.gates_types a
  assign _ values _ inside _ := filtered_exprs inside values _
  loop _ _ source _ _ _ hbody helse inside m :=
    ((filtered_expr inside source m).append (hbody inside _)).append (helse inside _)
  branch _ _ _ hbranches helse inside m := (hbranches inside m).append (helse inside _)
  macroDecl name params body sp hbody inside m := by
    have hsignature := filtered_of_gates fun c => c.gates_signature name.name params body sp
    have hdefaults := filtered_exprs inside (MacroParam.defaults params) m
    exact (hsignature.append hdefaults).append (hbody (some name.name) _)
  imports i inside m := filtered_expr inside i.template m
  body_nil _ _ := filtered_nil
  body_cons s _ hs hrest inside m := (hs inside m).append (hrest inside (s.scopeAfter m))
  branches_nil _ _ := filtered_nil
  branches_cons condition body _ hbody hrest inside m :=
    ((filtered_expr inside condition m).append (hbody inside m)).append
      (hrest inside (Stmt.bodyScopeAfter body m))

/-- The findings of every walk are filtered. -/
theorem filtered_walk (body : List Stmt) : Filtered fun c => Event.findings (c.walk body) := by
  simp only [findings_walk]
  exact filtered_stmtCases.body body none .empty

end Site

/-! ### Visits and runs -/

namespace Analyzer

/-- Two visits remember the same, and the findings of the first are those of the second that a
configuration keeps. -/
structure Kept (c : Config) (v w : Visit) : Prop where
  cache_eq : v.1 = w.1
  findings_eq : Event.findings v.2 = (Event.findings w.2).filter c.keeps

theorem followNamed_kept {a : Analyzer} {visit visit' : String → Template → ImportCache → Visit}
    (hvisit : ∀ name t cache, Kept a.config (visit name t cache) (visit' name t cache))
    (name : String) (place : Location) (cache : ImportCache) :
    (a.followNamed visit name place cache).1 = (a.enableAll.followNamed visit' name place cache).1 ∧
      Kept a.config (a.followNamed visit name place cache).2
        (a.enableAll.followNamed visit' name place cache).2 := by
  unfold followNamed
  cases cache.get name with
  | ready table => refine ⟨rfl, rfl, ?_⟩; dsimp only; split <;> rfl
  | failed e => exact ⟨rfl, rfl, rfl⟩
  | missing =>
    rw [show a.enableAll.loader = a.loader from rfl]
    cases a.loader.load name with
    | error e => exact ⟨rfl, rfl, rfl⟩
    | ok t =>
      have hv := hvisit name t cache
      exact ⟨rfl, hv.cache_eq, hv.findings_eq⟩

theorem follow_kept {a : Analyzer} {visit visit' : String → Template → ImportCache → Visit}
    (hvisit : ∀ name t cache, Kept a.config (visit name t cache) (visit' name t cache))
    (path : String) (own : MacroTable) (i : Import) (cache : ImportCache) :
    (a.follow visit path own i cache).1 = (a.enableAll.follow visit' path own i cache).1 ∧
      Kept a.config (a.follow visit path own i cache).2
        (a.enableAll.follow visit' path own i cache).2 := by
  unfold follow
  cases ImportSource.ofExpr i.template with
  | named name => exact followNamed_kept hvisit name _ cache
  | own => exact ⟨rfl, rfl, rfl⟩
  | dynamic => exact ⟨rfl, rfl, rfl⟩

/-- Following imports binds the same macros whatever is enabled. -/
theorem followAll_kept {a : Analyzer} {visit visit' : String → Template → ImportCache → Visit}
    (hvisit : ∀ name t cache, Kept a.config (visit name t cache) (visit' name t cache))
    (path : String) (is : List Import) (registry : Registry) (cache : ImportCache) :
    (a.followAll visit path is registry cache).1
        = (a.enableAll.followAll visit' path is registry cache).1 ∧
      Kept a.config (a.followAll visit path is registry cache).2
        (a.enableAll.followAll visit' path is registry cache).2 := by
  induction is generalizing registry cache with
  | nil => exact ⟨rfl, rfl, rfl⟩
  | cons i rest ih =>
    obtain ⟨htable, hcache, hfound⟩ := follow_kept hvisit path registry.own i cache
    have hrest := ih (registry.bind i.kind (a.follow visit path registry.own i cache).1)
      (a.follow visit path registry.own i cache).2.1
    simp only [followAll]
    rw [← htable, ← hcache]
    refine ⟨hrest.1, hrest.2.cache_eq, ?_⟩
    rw [Event.findings_append, Event.findings_append, List.filter_append, hfound,
      hrest.2.findings_eq]

/-- **A visit is filtered**, whatever is remembered before it. -/
theorem visit_filtered (a : Analyzer) (bound : Nat) (name : String) (t : Template)
    (cache : ImportCache) :
    Kept a.config (a.visit bound name t cache) (a.enableAll.visit bound name t cache) := by
  induction bound generalizing name t cache with
  | zero => exact ⟨rfl, rfl⟩
  | succ bound ih =>
    have hall := followAll_kept ih t.name t.imports { own := t.macroTable }
      ((cache.publish name t.macroTable).start name)
    refine ⟨?_, ?_⟩
    · simp only [visit]
      rw [hall.2.cache_eq]
    · have hwalk := Site.filtered_walk t.body (a.site t (a.followAll (a.visit bound) t.name
        t.imports { own := t.macroTable } ((cache.publish name t.macroTable).start name)).1)
      rw [findings_visit, findings_visit, List.filter_append, hall.2.findings_eq, ← hall.1]
      exact congrArg _ hwalk

/-- **Inspections are independent filters.**  The findings of a run are those of the run with every
inspection enabled, in the same order, without those whose inspection is switched off. -/
theorem findings_eq_filter (a : Analyzer) (t : Template) :
    a.findings t = (a.enableAll.findings t).filter a.config.keeps := by
  rw [findings_eq, findings_eq]
  exact (a.visit_filtered a.depthBound t.name t .empty).findings_eq

end Analyzer

end TemplateContracts
