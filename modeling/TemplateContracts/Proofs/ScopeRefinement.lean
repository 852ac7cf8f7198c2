import TemplateContracts.Proofs.ScopedWalk

/-!
# The walk and its reading over maps

Every step of the walk is compared with its findings under the map that the environment answers.
The relation is `Walk.Refines`: the step declares given names for good and leaves all else, and its
findings are a function of the map before it.  It is closed under doing one step after another,
under pushing names around a step and popping them behind it, and under a frame of its own; loops,
lambdas and macro bodies are these three.

* `Site.reads_cases` : expressions, by induction over the tree;
* `Site.refines_cases` : statements, by induction over the tree;
* `Site.walk_eq_scoped_walk` : the findings of a whole walk, and the map it ends with.
-/

namespace TemplateContracts

/-! ### Steps of the walk and their findings -/

@[simp] theorem Site.findings_reports (c : Site) (i : Inspection) (ds : List Diagnostic) :
    Event.findings (c.reports i ds) = c.gated i ds := by
  unfold Site.reports Site.gated
  split
  · exact Event.findings_map_reported ds
  · rfl

namespace Walk

theorem andThen_assoc (u v w : Walk) : (u.andThen v).andThen w = u.andThen (v.andThen w) := by
  funext env
  simp [andThen, List.append_assoc]

theorem all_append (ws ws' : List Walk) : all (ws ++ ws') = (all ws).andThen (all ws') := by
  induction ws with
  | nil => rfl
  | cons w rest ih =>
    show w.andThen (all (rest ++ ws')) = (w.andThen (all rest)).andThen (all ws')
    rw [ih, andThen_assoc]

/-- A step of the walk declares the names of `d` for good, and `f` gives its findings from the map
before it. -/
structure Refines (w : Walk) (d : Scope) (f : Scope → List Diagnostic) : Prop where
  env_extends : ∀ env, TypeEnv.Extends d env (w env).1
  findings_eq : ∀ env, Event.findings (w env).2 = f env.lookup?

/-- A step of the walk that only reads. -/
abbrev Reads (w : Walk) (f : Scope → List Diagnostic) : Prop := w.Refines .empty f

theorem reads_skip : skip.Reads fun _ => [] := ⟨TypeEnv.Extends.refl, fun _ => rfl⟩

theorem reads_emit (events : List Event) : (emit events).Reads fun _ => Event.findings events :=
  ⟨TypeEnv.Extends.refl, fun _ => rfl⟩

theorem Refines.andThen {v w : Walk} {d e : Scope} {f g : Scope → List Diagnostic}
    (hv : v.Refines d f) (hw : w.Refines e g) :
    (v.andThen w).Refines (e.atop d) fun m => f m ++ g (d.atop m) := by
  refine ⟨fun env => (hv.env_extends env).trans (hw.env_extends (v env).1), fun env => ?_⟩
  show Event.findings ((v env).2 ++ (w (v env).1).2) = _
  rw [Event.findings_append, hv.findings_eq, hw.findings_eq, (hv.env_extends env).lookup?_eq]

theorem Refines.all_singleton {w : Walk} {d : Scope} {f : Scope → List Diagnostic}
    (h : w.Refines d f) : (all [w]).Refines d f := by
  refine ⟨h.env_extends, fun env => ?_⟩
  show Event.findings ((w env).2 ++ []) = _
  rw [List.append_nil, h.findings_eq]

/-- Steps that only read, in order. -/
theorem Reads.all_cons {w : Walk} {ws : List Walk} {f g : Scope → List Diagnostic}
    (hw : w.Reads f) (hws : (all ws).Reads g) : (all (w :: ws)).Reads fun m => f m ++ g m :=
  Refines.andThen hw hws

/-- A step between the pushes of names and their pops. -/
theorem Refines.bracket {w : Walk} {d : Scope} {f : Scope → List Diagnostic} (h : w.Refines d f)
    (names : List String) :
    (all [change (·.pushAll names .mixed), w, change (·.popAll names)]).Refines d
      fun m => f (m.bindAll names) := by
  refine ⟨fun env => (h.env_extends (env.pushAll names .mixed)).popAll_of_pushAll, fun env => ?_⟩
  show Event.findings ([] ++ ((w (env.pushAll names .mixed)).2 ++ ([] ++ []))) = _
  rw [List.append_nil, List.append_nil, List.nil_append, h.findings_eq, TypeEnv.lookup?_pushAll]

/-- A step in a frame of its own, which sees the pushed names only. -/
theorem Refines.frame {w : Walk} {d : Scope} {f : Scope → List Diagnostic} (h : w.Refines d f)
    (kind : FrameKind) (names : List String) :
    (all [change fun env => (env.pushFrame kind).pushAll names .mixed, w,
      change (·.popFrame)]).Reads fun _ => f (Scope.empty.bindAll names) := by
  refine ⟨fun env => ?_, fun env => ?_⟩
  · show TypeEnv.Extends .empty env (w ((env.pushFrame kind).pushAll names .mixed)).1.popFrame
    rw [(h.env_extends ((env.pushFrame kind).pushAll names .mixed)).popFrame_of_pushFrame]
    exact .refl env
  · show Event.findings ([] ++ ((w ((env.pushFrame kind).pushAll names .mixed)).2 ++ ([] ++ [])))
      = _
    rw [List.append_nil, List.append_nil, List.nil_append, h.findings_eq, TypeEnv.lookup?_pushAll]
    rfl

end Walk

/-! ### Expressions -/

namespace Site

theorem reads_name (c : Site) (inside : Option String) (n : String) (s : Span) :
    (Walk.read (c.checkName inside n s)).Reads (c.nameFindings inside n s) := by
  refine ⟨TypeEnv.Extends.refl, fun env => ?_⟩
  show Event.findings (c.checkName inside n s env) = _
  cases inside with
  | none => rfl
  | some macroName =>
    unfold checkName nameFindings
    show Event.findings (if (env.lookup? n).isSome || c.isImplicit n then [] else _) = _
    split
    · rfl
    · rw [findings_reports]

theorem reads_access (c : Site) (receiver : Expr) (attr : String) (access : AccessKind)
    (s : Span) :
    (Walk.read (c.checkAccess receiver attr access s)).Reads
      (c.accessFindings receiver attr access s) := by
  refine ⟨TypeEnv.Extends.refl, fun env => ?_⟩
  show Event.findings (c.checkAccess receiver attr access s env) = _
  rw [checkAccess, Event.findings_append, findings_reports, findings_reports]
  rfl

/-- **Every expression reads the map and leaves it as it was**, and so do lists, pairs and
arguments. -/
theorem reads_cases (c : Site) (inside : Option String) : Expr.Cases
    (fun e => (c.checkExpr inside e).Reads (c.exprFindings inside e))
    (fun items => (c.checkExprs inside items).Reads (c.exprsFindings inside items))
    (fun pairs => (c.checkPairs inside pairs).Reads (c.pairsFindings inside pairs))
    (fun arguments =>
      (c.checkArguments inside arguments).Reads (c.argumentsFindings inside arguments)) where
  null _ := Walk.reads_skip
  bool _ _ := Walk.reads_skip
  number _ _ := Walk.reads_skip
  string _ _ := Walk.reads_skip
  array _ _ hitems := hitems
  hash _ _ hpairs := hpairs
  name s n := c.reads_name inside n s
  member s receiver attr access arguments hreceiver harguments := by
    have hargs := Walk.Refines.all_singleton harguments
    have hall := (c.reads_access receiver attr access s).all_cons (hreceiver.all_cons hargs)
    simpa only [checkExpr, exprFindings, List.append_assoc] using hall
  macroCall _ _ _ _ harguments :=
    (Walk.reads_emit _).all_cons (Walk.Refines.all_singleton harguments)
  function _ _ _ harguments :=
    (Walk.reads_emit _).all_cons (Walk.Refines.all_singleton harguments)
  filter _ _ _ _ hinput harguments := hinput.all_cons (Walk.Refines.all_singleton harguments)
  test s input n arguments hinput hinner harguments := by
    have hargs := Walk.Refines.all_singleton harguments
    cases input, n using Expr.testCases with
    | name sp x =>
      rw [checkExpr_test_name, exprFindings_test_name]
      exact harguments
    | function sp f inner =>
      rw [checkExpr_test_function, exprFindings_test_function]
      exact Walk.Reads.all_cons hinner hargs
    | defined input hname hfunction =>
      rw [checkExpr_test_defined _ _ _ _ hname hfunction,
        exprFindings_test_defined _ _ _ _ hname hfunction]
      exact hinput.all_cons hargs
    | other input n hn =>
      rw [checkExpr_test_other _ _ _ _ hn, exprFindings_test_other _ _ _ _ hn]
      simp only [List.append_assoc]
      exact hinput.all_cons ((Walk.reads_emit (c.checkNamed n arguments s)).all_cons hargs)
  lambda _ params _ hbody := hbody.bracket (params.map Ident.name)
  binary _ _ _ _ hleft hright := hleft.all_cons hright.all_singleton
  unary _ _ _ hoperand := hoperand
  conditional _ _ _ _ hcondition hyes hno := by
    have hall := hcondition.all_cons (hyes.all_cons hno.all_singleton)
    simpa only [checkExpr, exprFindings, List.append_assoc] using hall
  items_nil := Walk.reads_skip
  items_cons _ _ he hrest := he.andThen hrest
  pairs_nil := Walk.reads_skip
  pairs_cons _ _ _ hk hv hrest := by
    have hall := hk.all_cons (hv.all_cons (Walk.Refines.all_singleton hrest))
    simpa only [checkPairs, pairsFindings, ← List.append_assoc] using hall
  arguments_nil := Walk.reads_skip
  arguments_cons _ _ _ he hrest := he.andThen hrest

theorem reads_expr (c : Site) (inside : Option String) (e : Expr) :
    (c.checkExpr inside e).Reads (c.exprFindings inside e) :=
  (c.reads_cases inside).expr e

theorem reads_exprs (c : Site) (inside : Option String) (items : List Expr) :
    (c.checkExprs inside items).Reads (c.exprsFindings inside items) :=
  (c.reads_cases inside).items items

/-! ### Statements -/

theorem refines_declaration (c : Site) (place : Location) (d : TypeDecl) :
    (c.checkDeclaration place d).Refines (Scope.empty.bind d.name.name d.type) fun _ =>
      c.gated .invalidTypes
        (Event.findings (c.declarationEvents place d (TypeParser.ofText d.typeText).parse)) := by
  refine ⟨fun env => env.extends_add d.name.name d.type, fun env => ?_⟩
  show Event.findings ((if c.config.isEnabled .invalidTypes then
      c.declarationEvents place d (TypeParser.ofText d.typeText).parse else []) ++ ([] ++ [])) = _
  rw [List.append_nil, List.append_nil, gated]
  split <;> rfl

theorem refines_types (c : Site) (a : Contract) :
    (c.checkTypes a).Refines (Scope.empty.declareTypes a.mapping) fun _ => c.typesFindings a := by
  unfold checkTypes typesFindings
  induction a.mapping with
  | nil => exact Walk.reads_skip
  | cons d rest ih =>
    have hstep := (c.refines_declaration (c.place a.span) d).andThen ih
    rw [← (Scope.Declares.declareTypes rest).eq_atop] at hstep
    exact hstep

theorem extends_declareAll (env : TypeEnv) (names : List String) :
    TypeEnv.Extends (Scope.empty.bindAll names) env (declareAll names env) := by
  induction names generalizing env with
  | nil => exact .refl env
  | cons name rest ih =>
    have hrest := (env.extends_add name .mixed).trans (ih (env.add name .mixed))
    rw [← Scope.bindAll_eq_atop] at hrest
    have hmap : (Scope.empty.bind name .mixed).bindAll rest
        = Scope.empty.bindAll (name :: rest) := by
      funext n
      by_cases hr : n ∈ rest <;> by_cases hn : n = name <;>
        simp [Scope.bindAll, Scope.bind, Scope.empty, hr, hn]
    rw [hmap] at hrest
    exact hrest

/-- The names of an assignment that are new to an environment. -/
def newNames (names : List String) (env : TypeEnv) : Scope :=
  fun n => if n ∈ names ∧ env.declares n = false then some .mixed else none

theorem newNames_atop (names : List String) (env : TypeEnv) :
    (newNames names env).atop env.lookup? = Scope.bindNew env.lookup? names := by
  funext n
  cases h : env.lookup? n <;> by_cases hn : n ∈ names <;>
    simp [newNames, Scope.atop, Scope.bindNew, TypeEnv.declares, h, hn]

theorem extends_declareNew (env : TypeEnv) (names : List String) :
    TypeEnv.Extends (newNames names env) env (declareNew names env) := by
  induction names generalizing env with
  | nil =>
    have hnone : newNames [] env = .empty := by
      funext n
      simp [newNames, Scope.empty]
    rw [hnone]
    exact .refl env
  | cons name rest ih =>
    cases hd : env.declares name with
    | true =>
      have hsame : newNames (name :: rest) env = newNames rest env := by
        funext n
        by_cases hn : n = name <;> simp [newNames, hn, hd]
      have hskip : declareNew (name :: rest) env = declareNew rest env := by
        simp [declareNew, hd]
      rw [hsame, hskip]
      exact ih env
    | false =>
      have hadd : declareNew (name :: rest) env = declareNew rest (env.add name .mixed) := by
        simp [declareNew, hd]
      have hstep := (env.extends_add name .mixed).trans (ih (env.add name .mixed))
      have hmap : (newNames rest (env.add name .mixed)).atop (Scope.empty.bind name .mixed)
          = newNames (name :: rest) env := by
        funext n
        have hl := congrFun (env.extends_add name .mixed).lookup?_eq n
        by_cases hn : n = name
        · subst hn
          have hnone : env.lookup? n = none := by simpa [TypeEnv.declares] using hd
          simp [newNames, Scope.atop, Scope.bind, TypeEnv.declares, hl, hnone]
        · have hsame : (env.add name .mixed).declares n = env.declares n := by
            simp [TypeEnv.declares, hl, Scope.atop, Scope.bind, Scope.empty, hn]
          simp [newNames, Scope.atop, Scope.bind, Scope.empty, hsame, hn]
      rw [hadd, ← hmap]
      exact hstep

/-- An assignment: its names count as declared inside its values already. -/
theorem refines_assign {w : Walk} {f : Scope → List Diagnostic} (h : w.Reads f)
    (names : List String) :
    (Walk.all [.change (declareNew names), w, .change (declareAll names)]).Refines
      (Scope.empty.bindAll names) fun m => f (m.bindNew names) := by
  refine ⟨fun env => ?_, fun env => ?_⟩
  · have hnew := (extends_declareNew env names).trans (h.env_extends (declareNew names env))
    have hall := hnew.trans (extends_declareAll (w (declareNew names env)).1 names)
    -- what was new is declared again behind the values
    have hmap : (Scope.empty.bindAll names).atop (Scope.empty.atop (newNames names env))
        = Scope.empty.bindAll names := by
      funext n
      by_cases hn : n ∈ names <;> simp [Scope.atop, Scope.bindAll, Scope.empty, newNames, hn]
    rw [hmap] at hall
    exact hall
  · show Event.findings ([] ++ ((w (declareNew names env)).2 ++ ([] ++ []))) = _
    rw [List.append_nil, List.append_nil, List.nil_append, h.findings_eq,
      (extends_declareNew env names).lookup?_eq, newNames_atop]

/-- A loop, from its parts: the source, the body between its pushes and pops, and the rest. -/
theorem refines_loop_of {c : Site} {inside : Option String} {key : Option Ident} {value : Ident}
    {source : Expr} {body orElse : List Stmt} {sp : Span}
    (hbody : (c.checkBody inside body).Refines (Stmt.bodyScopeAfter body .empty)
      (c.bodyFindings inside body))
    (helse : (c.checkBody inside orElse).Refines (Stmt.bodyScopeAfter orElse .empty)
      (c.bodyFindings inside orElse)) :
    (c.checkStmt inside (.loop key value source body orElse sp)).Refines
      ((Stmt.loop key value source body orElse sp).scopeAfter .empty)
      (c.stmtFindings inside (.loop key value source body orElse sp)) := by
  have hb := Stmt.declares_bodyScopeAfter body
  have hsource := (c.reads_expr inside source).all_singleton
  have hbracket := hbody.bracket (loopTargets key value)
  have hall := hsource.andThen (hbracket.andThen helse.all_singleton)
  rw [← Walk.all_append, ← Walk.all_append, ← (Stmt.declares_bodyScopeAfter orElse).eq_atop,
    Scope.atop_empty] at hall
  simp only [Scope.empty_atop, ← List.append_assoc] at hall
  simp only [Stmt.scopeAfter, stmtFindings, hb.takeFrom_eq_atop, Scope.atop_empty]
  exact hall

/-- A macro, from its parts: the signature, the defaults, and the body in a frame of its own. -/
theorem refines_macroDecl_of {c : Site} {inside : Option String} {name : Ident}
    {params : List MacroParam} {body : List Stmt} {sp : Span}
    (hbody : (c.checkBody (some name.name) body).Refines (Stmt.bodyScopeAfter body .empty)
      (c.bodyFindings (some name.name) body)) :
    (c.checkStmt inside (.macroDecl name params body sp)).Reads
      (c.stmtFindings inside (.macroDecl name params body sp)) := by
  have hframe := hbody.frame .macroBody (params.map (·.name.name))
  have hdefaults := c.reads_exprs inside (MacroParam.defaults params)
  have hall := (Walk.reads_emit (c.checkSignature name.name params body sp)).all_cons
    (hdefaults.all_cons hframe)
  simp only [← List.append_assoc] at hall
  exact hall

/-- **Every statement of the walk refines its reading over maps**, and so do lists of statements and
branches. -/
theorem refines_cases (c : Site) : Stmt.Cases
    (fun s => ∀ inside, (c.checkStmt inside s).Refines (s.scopeAfter .empty)
      (c.stmtFindings inside s))
    (fun body => ∀ inside, (c.checkBody inside body).Refines (Stmt.bodyScopeAfter body .empty)
      (c.bodyFindings inside body))
    (fun branches => ∀ inside, (c.checkBranches inside branches).Refines
      (Stmt.branchesScopeAfter branches .empty) (c.branchesFindings inside branches)) where
  text _ _ _ := Walk.reads_skip
  print e _ inside := c.reads_expr inside e
  types a _ := c.refines_types a
  guarded a _ _ := c.refines_types a
  assign _ values _ inside := refines_assign (c.reads_exprs inside values) _
  loop _ _ _ _ _ _ hbody helse inside := refines_loop_of (hbody inside) (helse inside)
  branch branches orElse _ hbranches helse inside := by
    have hall := (hbranches inside).andThen (helse inside).all_singleton
    rw [← (Stmt.declares_bodyScopeAfter orElse).eq_atop] at hall
    simp only [← (Stmt.declares_branchesScopeAfter branches).eq_atop] at hall
    exact hall
  macroDecl name _ _ _ hbody _ := refines_macroDecl_of (hbody (some name.name))
  imports i inside := c.reads_expr inside i.template
  body_nil _ := Walk.reads_skip
  body_cons s rest hs hrest inside := by
    have hstep := (hs inside).andThen (hrest inside)
    rw [← (Stmt.declares_bodyScopeAfter rest).eq_atop] at hstep
    simp only [← s.declares_scopeAfter.eq_atop] at hstep
    exact hstep
  branches_nil _ := Walk.reads_skip
  branches_cons condition body rest hbody hrest inside := by
    have hinner := (hbody inside).andThen (hrest inside).all_singleton
    have hstep := (c.reads_expr inside condition).andThen hinner
    rw [← (Stmt.declares_branchesScopeAfter rest).eq_atop, Scope.atop_empty] at hstep
    simp only [← (Stmt.declares_bodyScopeAfter body).eq_atop, Scope.empty_atop,
      ← List.append_assoc] at hstep
    exact hstep

theorem refines_stmt (c : Site) (inside : Option String) (s : Stmt) :
    (c.checkStmt inside s).Refines (s.scopeAfter .empty) (c.stmtFindings inside s) :=
  c.refines_cases.stmt s inside

theorem refines_body (c : Site) (inside : Option String) (body : List Stmt) :
    (c.checkBody inside body).Refines (Stmt.bodyScopeAfter body .empty)
      (c.bodyFindings inside body) :=
  c.refines_cases.body body inside

/-- The findings of the walk are those of the walk over maps, from the map without variables. -/
theorem findings_walk (c : Site) (body : List Stmt) :
    Event.findings (c.walk body) = c.bodyFindings none body .empty :=
  (c.refines_body none body).findings_eq .empty

/-- **The walk over the stack of entries is the walk over a map.**  For all statements, both report
the same findings in the same order, and the variables behind the statements have the same types. -/
theorem walk_eq_scoped_walk (c : Site) (body : List Stmt) :
    Event.findings (c.walk body) = c.bodyFindings none body .empty ∧
      (c.checkBody none body .empty).1.lookup? = Stmt.bodyScopeAfter body .empty := by
  refine ⟨c.findings_walk body, ?_⟩
  rw [((c.refines_body none body).env_extends .empty).lookup?_eq]
  exact Scope.atop_empty _

end Site

end TemplateContracts
