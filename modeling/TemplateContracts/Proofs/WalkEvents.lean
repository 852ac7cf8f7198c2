import TemplateContracts.Proofs.NodeChecks

/-!
# What a walk logs

Everything that the walk of a template logs comes from one of six checks: of a name, an attribute
access, a macro call, a use of `constant`, a declaration and a macro signature.  Each of them is
given the span of the node that it checks.  What holds of the events of these checks, at the spans
of the nodes of a template, holds of every event of its walk, whatever the environment.

* `Walk.Logs` : every event of a step has a property;
* `Site.ChecksLog` : every event of the six checks has it, at given spans;
* `Site.logs_stmtCases`, `Site.ChecksLog.walk` : so has every event of a statement, and of a walk,
  if the nodes stand at these spans;
* `Site.isOfWalk_of_mem_walk` : a walk never loads or enters a template.
-/

namespace TemplateContracts

namespace Walk

/-- Every event that a step logs has the property. -/
def Logs (P : Event → Prop) (w : Walk) : Prop := ∀ env, ∀ e ∈ (w env).2, P e

variable {P : Event → Prop} {v w : Walk} {ws : List Walk}

theorem logs_skip : skip.Logs P := fun _ _ he => absurd he List.not_mem_nil

theorem logs_change (f : TypeEnv → TypeEnv) : (change f).Logs P :=
  fun _ _ he => absurd he List.not_mem_nil

theorem logs_emit {events : List Event} (h : ∀ e ∈ events, P e) : (emit events).Logs P :=
  fun _ => h

theorem Logs.andThen (hv : v.Logs P) (hw : w.Logs P) : (v.andThen w).Logs P := by
  intro env e he
  rcases List.mem_append.mp he with he | he
  · exact hv env e he
  · exact hw (v env).1 e he

theorem logs_all (h : ∀ w ∈ ws, w.Logs P) : (all ws).Logs P := by
  induction ws with
  | nil => exact logs_skip
  | cons w rest ih =>
    rw [List.forall_mem_cons] at h
    exact h.1.andThen (ih h.2)

theorem Logs.all_cons (hw : w.Logs P) (hws : (all ws).Logs P) : (all (w :: ws)).Logs P :=
  hw.andThen hws

theorem Logs.all_singleton (hw : w.Logs P) : (all [w]).Logs P := hw.all_cons logs_skip

end Walk

/-- Every node stands at one of the spans. -/
def SpansIn (S : Span → Prop) (ns : List Node) : Prop := ∀ n ∈ ns, S n.span

namespace SpansIn

variable {S : Span → Prop} {n : Node} {ns ms : List Node}

@[simp] theorem cons_iff : SpansIn S (n :: ns) ↔ S n.span ∧ SpansIn S ns := List.forall_mem_cons

@[simp] theorem append_iff : SpansIn S (ns ++ ms) ↔ SpansIn S ns ∧ SpansIn S ms :=
  List.forall_mem_append

end SpansIn

namespace Site

/-- Every event of the checks of a site has the property, at the given spans. -/
structure ChecksLog (c : Site) (S : Span → Prop) (P : Event → Prop) : Prop where
  name : ∀ inside n s env, S s → ∀ e ∈ c.checkName inside n s env, P e
  access : ∀ receiver attr access s env, S s → ∀ e ∈ c.checkAccess receiver attr access s env, P e
  call : ∀ target n arguments s, S s → ∀ e ∈ c.checkCall target n arguments s, P e
  named : ∀ n arguments s, S s → ∀ e ∈ c.checkNamed n arguments s, P e
  declaration : ∀ s d outcome, S s → ∀ e ∈ c.declarationEvents (c.place s) d outcome, P e
  signature : ∀ n params body s, S s → ∀ e ∈ c.checkSignature n params body s, P e

section Trees

variable {c : Site} {S : Span → Prop} {P : Event → Prop}

/-- The arguments of a tested function stand among the nodes of the input. -/
theorem SpansIn.functionArguments {input : Expr} {tested : Bool}
    (h : SpansIn S (input.nodes tested)) :
    SpansIn S (Expr.argumentsNodes input.functionArguments) := by
  cases input with
  | function s n arguments =>
    rw [Expr.nodes, SpansIn.cons_iff] at h
    exact h.2
  | _ => exact fun _ hn => absurd hn List.not_mem_nil

/-- The events of every expression, at the spans of its nodes. -/
theorem logs_exprCases (hc : c.ChecksLog S P) (inside : Option String) : Expr.Cases
    (fun e => ∀ tested, SpansIn S (e.nodes tested) → (c.checkExpr inside e).Logs P)
    (fun items => SpansIn S (Expr.itemsNodes items) → (c.checkExprs inside items).Logs P)
    (fun pairs => SpansIn S (Expr.pairsNodes pairs) → (c.checkPairs inside pairs).Logs P)
    (fun arguments => SpansIn S (Expr.argumentsNodes arguments) →
      (c.checkArguments inside arguments).Logs P) where
  null _ _ _ := Walk.logs_skip
  bool _ _ _ _ := Walk.logs_skip
  number _ _ _ _ := Walk.logs_skip
  string _ _ _ _ := Walk.logs_skip
  array _ _ hitems tested hS := by
    simp only [Expr.nodes, SpansIn.cons_iff] at hS
    exact hitems hS.2
  hash _ _ hpairs tested hS := by
    simp only [Expr.nodes, SpansIn.cons_iff] at hS
    exact hpairs hS.2
  name s n tested hS := by
    simp only [Expr.nodes, SpansIn.cons_iff] at hS
    exact fun env => hc.name inside n s env hS.1
  member s receiver attr access arguments hreceiver harguments tested hS := by
    simp only [Expr.nodes, SpansIn.cons_iff, SpansIn.append_iff] at hS
    obtain ⟨hs, hSreceiver, hSarguments⟩ := hS
    have haccess : (Walk.read (c.checkAccess receiver attr access s)).Logs P :=
      fun env => hc.access receiver attr access s env hs
    exact haccess.all_cons
      ((hreceiver false hSreceiver).all_cons (harguments hSarguments).all_singleton)
  macroCall s target n arguments harguments tested hS := by
    simp only [Expr.nodes, SpansIn.cons_iff] at hS
    have hcall := Walk.logs_emit (hc.call target n arguments s hS.1)
    exact hcall.all_cons (harguments hS.2).all_singleton
  function s n arguments harguments tested hS := by
    simp only [Expr.nodes, SpansIn.cons_iff] at hS
    have hnamed := Walk.logs_emit (hc.named n arguments s hS.1)
    exact hnamed.all_cons (harguments hS.2).all_singleton
  filter _ _ _ _ hinput harguments tested hS := by
    simp only [Expr.nodes, SpansIn.cons_iff, SpansIn.append_iff] at hS
    obtain ⟨-, hSinput, hSarguments⟩ := hS
    exact (hinput false hSinput).all_cons (harguments hSarguments).all_singleton
  test s input n arguments hinput hinner harguments tested hS := by
    simp only [Expr.nodes, SpansIn.cons_iff, SpansIn.append_iff] at hS
    obtain ⟨hs, hSinput, hSarguments⟩ := hS
    have hargs := (harguments hSarguments).all_singleton
    cases input, n using Expr.testCases with
    | name sp x =>
      rw [checkExpr_test_name]
      exact harguments hSarguments
    | function sp f inner =>
      rw [checkExpr_test_function]
      exact (hinner (SpansIn.functionArguments hSinput)).all_cons hargs
    | defined input hname hfunction =>
      rw [checkExpr_test_defined _ _ _ _ hname hfunction]
      exact (hinput _ hSinput).all_cons hargs
    | other input n hn =>
      have hnamed := Walk.logs_emit (hc.named n arguments s hs)
      rw [checkExpr_test_other _ _ _ _ hn]
      exact (hinput _ hSinput).all_cons (hnamed.all_cons hargs)
  lambda _ _ _ hbody tested hS := by
    simp only [Expr.nodes, SpansIn.cons_iff] at hS
    exact (Walk.logs_change _).all_cons
      ((hbody false hS.2).all_cons (Walk.logs_change _).all_singleton)
  binary _ _ _ _ hleft hright tested hS := by
    simp only [Expr.nodes, SpansIn.cons_iff, SpansIn.append_iff] at hS
    obtain ⟨-, hSleft, hSright⟩ := hS
    exact (hleft false hSleft).all_cons (hright false hSright).all_singleton
  unary _ _ _ hoperand tested hS := by
    simp only [Expr.nodes, SpansIn.cons_iff] at hS
    exact hoperand false hS.2
  conditional _ _ _ _ hcondition hyes hno tested hS := by
    simp only [Expr.nodes, SpansIn.cons_iff, SpansIn.append_iff] at hS
    obtain ⟨-, ⟨hScondition, hSyes⟩, hSno⟩ := hS
    exact (hcondition false hScondition).all_cons
      ((hyes false hSyes).all_cons (hno false hSno).all_singleton)
  items_nil _ := Walk.logs_skip
  items_cons _ _ he hrest hS := by
    rw [Expr.itemsNodes, SpansIn.append_iff] at hS
    exact (he false hS.1).andThen (hrest hS.2)
  pairs_nil _ := Walk.logs_skip
  pairs_cons _ _ _ hk hv hrest hS := by
    rw [Expr.pairsNodes, SpansIn.append_iff, SpansIn.append_iff] at hS
    obtain ⟨⟨hSk, hSv⟩, hSrest⟩ := hS
    exact (hk false hSk).all_cons ((hv false hSv).all_cons (hrest hSrest).all_singleton)
  arguments_nil _ := Walk.logs_skip
  arguments_cons _ _ _ he hrest hS := by
    rw [Expr.argumentsNodes, SpansIn.append_iff] at hS
    exact (he false hS.1).andThen (hrest hS.2)

theorem logs_expr (hc : c.ChecksLog S P) (inside : Option String) (e : Expr)
    (hS : SpansIn S (e.nodes false)) : (c.checkExpr inside e).Logs P :=
  (logs_exprCases hc inside).expr e false hS

theorem logs_exprs (hc : c.ChecksLog S P) (inside : Option String) (items : List Expr)
    (hS : SpansIn S (Expr.itemsNodes items)) : (c.checkExprs inside items).Logs P :=
  (logs_exprCases hc inside).items items hS

theorem logs_types (hc : c.ChecksLog S P) (a : Contract) (hS : S a.span) :
    (c.checkTypes a).Logs P := by
  refine Walk.logs_all fun w hw => ?_
  obtain ⟨d, -, rfl⟩ := List.mem_map.mp hw
  refine Walk.Logs.all_cons (Walk.logs_emit ?_) (Walk.logs_change _).all_singleton
  intro e he
  split at he
  · exact hc.declaration a.span d _ hS e he
  · exact absurd he List.not_mem_nil

/-- The events of every statement, inside of macros and outside, at the spans of its nodes. -/
theorem logs_stmtCases (hc : c.ChecksLog S P) : Stmt.Cases
    (fun s => ∀ inside, SpansIn S s.nodes → (c.checkStmt inside s).Logs P)
    (fun body => ∀ inside, SpansIn S (Stmt.bodyNodes body) → (c.checkBody inside body).Logs P)
    (fun branches => ∀ inside, SpansIn S (Stmt.branchesNodes branches) →
      (c.checkBranches inside branches).Logs P) where
  text _ _ _ _ := Walk.logs_skip
  print e _ inside hS := by
    simp only [Stmt.nodes, SpansIn.cons_iff] at hS
    exact logs_expr hc inside e hS.2
  types a _ hS := by
    simp only [Stmt.nodes, SpansIn.cons_iff] at hS
    exact logs_types hc a hS.1
  guarded a _ _ hS := by
    simp only [Stmt.nodes, SpansIn.cons_iff] at hS
    exact logs_types hc a hS.1
  assign _ values _ inside hS := by
    simp only [Stmt.nodes, SpansIn.cons_iff] at hS
    exact (Walk.logs_change _).all_cons
      ((logs_exprs hc inside values hS.2).all_cons (Walk.logs_change _).all_singleton)
  loop _ _ source _ _ _ hbody helse inside hS := by
    simp only [Stmt.nodes, SpansIn.cons_iff, SpansIn.append_iff] at hS
    obtain ⟨-, ⟨hSsource, hSbody⟩, hSelse⟩ := hS
    exact (logs_expr hc inside source hSsource).all_cons ((Walk.logs_change _).all_cons
      ((hbody inside hSbody).all_cons
        ((Walk.logs_change _).all_cons (helse inside hSelse).all_singleton)))
  branch _ _ _ hbranches helse inside hS := by
    simp only [Stmt.nodes, SpansIn.cons_iff, SpansIn.append_iff] at hS
    obtain ⟨-, hSbranches, hSelse⟩ := hS
    exact (hbranches inside hSbranches).all_cons (helse inside hSelse).all_singleton
  macroDecl name params body sp hbody inside hS := by
    simp only [Stmt.nodes, SpansIn.cons_iff, SpansIn.append_iff] at hS
    obtain ⟨hs, hSdefaults, hSbody⟩ := hS
    have hsignature := Walk.logs_emit (hc.signature name.name params body sp hs)
    have hdefaults := logs_exprs hc inside (MacroParam.defaults params) hSdefaults
    exact hsignature.all_cons (hdefaults.all_cons ((Walk.logs_change _).all_cons
      ((hbody (some name.name) hSbody).all_cons (Walk.logs_change _).all_singleton)))
  imports i inside hS := by
    simp only [Stmt.nodes, SpansIn.cons_iff] at hS
    exact logs_expr hc inside i.template hS.2
  body_nil _ _ := Walk.logs_skip
  body_cons _ _ hs hrest inside hS := by
    rw [Stmt.bodyNodes, SpansIn.append_iff] at hS
    exact (hs inside hS.1).andThen (hrest inside hS.2)
  branches_nil _ _ := Walk.logs_skip
  branches_cons condition _ _ hbody hrest inside hS := by
    rw [Stmt.branchesNodes, SpansIn.append_iff, SpansIn.append_iff] at hS
    obtain ⟨⟨hScondition, hSbody⟩, hSrest⟩ := hS
    exact (logs_expr hc inside condition hScondition).all_cons
      ((hbody inside hSbody).all_cons (hrest inside hSrest).all_singleton)

end Trees

/-- The events of a whole walk. -/
theorem ChecksLog.walk {c : Site} {S : Span → Prop} {P : Event → Prop} (hc : c.ChecksLog S P)
    (body : List Stmt) (hS : SpansIn S (Stmt.bodyNodes body)) : ∀ e ∈ c.walk body, P e :=
  (logs_stmtCases hc).body body none hS .empty

end Site

/-! ### Events of a walk and of a run -/

/-- The kinds of events that belong to a walk: all others are about templates and imports. -/
def Event.isOfWalk : Event → Bool
  | typeError _ _ | hiddenCall _ | reported _ => true
  | _ => false

namespace Site

theorem isOfWalk_of_mem_reports {c : Site} {i : Inspection} {ds : List Diagnostic} :
    ∀ e ∈ c.reports i ds, e.isOfWalk = true := by
  intro e he
  unfold reports at he
  split at he
  · obtain ⟨d, -, rfl⟩ := List.mem_map.mp he
    rfl
  · exact absurd he List.not_mem_nil

theorem checksLog_isOfWalk (c : Site) : c.ChecksLog (fun _ => True) (·.isOfWalk = true) where
  name := by
    intro inside n s env _ e he
    cases inside with
    | none => exact absurd he List.not_mem_nil
    | some macroName =>
      unfold checkName at he
      dsimp only at he
      split at he
      · exact absurd he List.not_mem_nil
      · exact isOfWalk_of_mem_reports e he
  access := by
    intro receiver attr access s env _ e he
    rcases List.mem_append.mp he with he | he
    · exact isOfWalk_of_mem_reports e he
    · exact isOfWalk_of_mem_reports e he
  call := by
    intro target n arguments s _ e he
    rcases List.mem_append.mp he with he | he
    · exact isOfWalk_of_mem_reports e he
    · cases hr : c.registry.resolve target n with
      | resolved sig =>
        rw [hr] at he
        obtain ⟨d, -, rfl⟩ := List.mem_map.mp he
        rfl
      | hidden =>
        rw [hr] at he
        rw [List.mem_singleton.mp he]
        rfl
      | unknown =>
        rw [hr] at he
        exact isOfWalk_of_mem_reports e he
  named := by
    intro n arguments s _ e he
    unfold checkNamed at he
    split at he
    · exact isOfWalk_of_mem_reports e he
    · exact absurd he List.not_mem_nil
  declaration := by
    rintro s d ⟨result, p⟩ - e he
    cases result with
    | error err =>
      rcases List.mem_cons.mp he with rfl | he
      · rfl
      · rw [List.mem_singleton.mp he]
        rfl
    | ok type =>
      rcases List.mem_append.mp he with he | he
      · obtain ⟨dep, -, rfl⟩ := List.mem_map.mp he
        rfl
      · split at he
        · exact absurd he List.not_mem_nil
        · rw [List.mem_singleton.mp he]
          rfl
  signature := by
    intro n params body s _ e he
    exact isOfWalk_of_mem_reports e he

/-- A walk neither loads nor enters a template. -/
theorem isOfWalk_of_mem_walk (c : Site) (body : List Stmt) : ∀ e ∈ c.walk body, e.isOfWalk = true :=
  c.checksLog_isOfWalk.walk body fun _ _ => trivial

end Site

end TemplateContracts
