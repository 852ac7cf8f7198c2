import TemplateContracts.Proofs.Inspections

/-!
# Checks that look at single nodes

Macro calls, macro declarations, cases of enumerations and uses of `constant` are checked without
regard to the variables in scope.  The walk makes these checks on its way, and has paths of its own
for the input of `is defined`, for receivers and for the defaults of parameters.  This file lists
the nodes of a template without a walk and says what each of them deserves.

* `Node`, `Stmt.bodyNodes` : the statements and expressions of a template, in the order of reading.
  An expression is marked if it is the direct input of a test `defined`;
* `Site.nodeFindings` : the findings that a node deserves, wherever it stands;
* `Site.Covers` : among findings, those of the checks of single nodes are the ones that given nodes
  deserve, as a multiset;
* `Site.scopeFree_findings_perm` : **the walk reports what the nodes of a template deserve, each
  node once**.
-/

namespace TemplateContracts

open scoped List

/-- A node of a template. -/
inductive Node where
  | stmt (s : Stmt)
  /-- `tested` : it is the direct input of a test `defined`. -/
  | expr (e : Expr) (tested : Bool)

namespace Node

/-- The statement that a node is. -/
def stmt? : Node → Option Stmt
  | stmt s => some s
  | expr _ _ => none

/-- The expression that a node is. -/
def expr? : Node → Option Expr
  | stmt _ => none
  | expr e _ => some e

/-- Where a node stands. -/
def span : Node → Span
  | stmt s => s.span
  | expr e _ => e.span

end Node

/-! ### The nodes of a template -/

namespace Expr

mutual

/-- The nodes of an expression, in the order of reading. -/
def nodes (tested : Bool) : Expr → List Node
  | array s items => .expr (array s items) tested :: itemsNodes items
  | hash s pairs => .expr (hash s pairs) tested :: pairsNodes pairs
  | member s receiver a k args =>
    .expr (member s receiver a k args) tested :: (nodes false receiver ++ argumentsNodes args)
  | macroCall s t n args => .expr (macroCall s t n args) tested :: argumentsNodes args
  | function s n args => .expr (function s n args) tested :: argumentsNodes args
  | filter s input n args =>
    .expr (filter s input n args) tested :: (nodes false input ++ argumentsNodes args)
  | test s input n args =>
    .expr (test s input n args) tested :: (nodes (n = "defined") input ++ argumentsNodes args)
  | lambda s ps body => .expr (lambda s ps body) tested :: nodes false body
  | binary s op l r => .expr (binary s op l r) tested :: (nodes false l ++ nodes false r)
  | unary s op e => .expr (unary s op e) tested :: nodes false e
  | conditional s c y n =>
    .expr (conditional s c y n) tested :: (nodes false c ++ nodes false y ++ nodes false n)
  | e => [.expr e tested]

/-- The nodes of expressions. -/
def itemsNodes : List Expr → List Node
  | [] => []
  | e :: rest => nodes false e ++ itemsNodes rest

/-- The nodes of the pairs of a hash, each key before its value. -/
def pairsNodes : List (Expr × Expr) → List Node
  | [] => []
  | (k, v) :: rest => nodes false k ++ nodes false v ++ pairsNodes rest

/-- The nodes of arguments. -/
def argumentsNodes : List (Argument Expr) → List Node
  | [] => []
  | ⟨_, e⟩ :: rest => nodes false e ++ argumentsNodes rest

end

end Expr

namespace Stmt

mutual

/-- The nodes of a statement, in the order of reading. -/
def nodes : Stmt → List Node
  | print e s => .stmt (print e s) :: e.nodes false
  | assign names values s => .stmt (assign names values s) :: Expr.itemsNodes values
  | loop key value source body orElse s =>
    .stmt (loop key value source body orElse s) ::
      (source.nodes false ++ bodyNodes body ++ bodyNodes orElse)
  | branch branches orElse s =>
    .stmt (branch branches orElse s) :: (branchesNodes branches ++ bodyNodes orElse)
  | macroDecl name params body s =>
    .stmt (macroDecl name params body s) ::
      (Expr.itemsNodes (MacroParam.defaults params) ++ bodyNodes body)
  | imports i => .stmt (imports i) :: i.template.nodes false
  | s => [.stmt s]

/-- The nodes of statements. -/
def bodyNodes : List Stmt → List Node
  | [] => []
  | s :: rest => nodes s ++ bodyNodes rest

/-- The nodes of branches, each condition before its statements. -/
def branchesNodes : List (Branch Stmt) → List Node
  | [] => []
  | ⟨condition, body⟩ :: rest => condition.nodes false ++ bodyNodes body ++ branchesNodes rest

end

end Stmt

/-! ### No node is missed -/

/-- The nodes are given expressions and given statements, each in its order. -/
structure Enumerates (ns : List Node) (es : List Expr) (ss : List Stmt) : Prop where
  exprs_eq : ns.filterMap Node.expr? = es
  stmts_eq : ns.filterMap Node.stmt? = ss

namespace Enumerates

variable {ns ns' : List Node} {es es' : List Expr} {ss ss' : List Stmt}

theorem nil : Enumerates [] [] [] := ⟨rfl, rfl⟩

theorem append (h : Enumerates ns es ss) (h' : Enumerates ns' es' ss') :
    Enumerates (ns ++ ns') (es ++ es') (ss ++ ss') := by
  refine ⟨?_, ?_⟩
  · rw [List.filterMap_append, h.exprs_eq, h'.exprs_eq]
  · rw [List.filterMap_append, h.stmts_eq, h'.stmts_eq]

theorem cons_expr (h : Enumerates ns es ss) (e : Expr) (tested : Bool) :
    Enumerates (.expr e tested :: ns) (e :: es) ss := by
  refine ⟨?_, ?_⟩
  · show e :: ns.filterMap Node.expr? = e :: es
    rw [h.exprs_eq]
  · rw [List.filterMap_cons_none rfl, h.stmts_eq]

theorem cons_stmt (h : Enumerates ns es ss) (s : Stmt) :
    Enumerates (.stmt s :: ns) es (s :: ss) := by
  refine ⟨?_, ?_⟩
  · rw [List.filterMap_cons_none rfl, h.exprs_eq]
  · show s :: ns.filterMap Node.stmt? = s :: ss
    rw [h.stmts_eq]

end Enumerates

namespace Expr

/-- The nodes of an expression are its subexpressions, marked or not. -/
theorem enumerates_cases : Cases
    (fun e => ∀ tested, Enumerates (e.nodes tested) e.subexprs [])
    (fun items => Enumerates (itemsNodes items) (itemsExprs items) [])
    (fun pairs => Enumerates (pairsNodes pairs) (pairsExprs pairs) [])
    (fun arguments => Enumerates (argumentsNodes arguments) (argumentsExprs arguments) []) where
  null _ tested := Enumerates.nil.cons_expr _ tested
  bool _ _ tested := Enumerates.nil.cons_expr _ tested
  number _ _ tested := Enumerates.nil.cons_expr _ tested
  string _ _ tested := Enumerates.nil.cons_expr _ tested
  array _ _ hitems tested := hitems.cons_expr _ tested
  hash _ _ hpairs tested := hpairs.cons_expr _ tested
  name _ _ tested := Enumerates.nil.cons_expr _ tested
  member _ _ _ _ _ hreceiver harguments tested :=
    ((hreceiver false).append harguments).cons_expr _ tested
  macroCall _ _ _ _ harguments tested := harguments.cons_expr _ tested
  function _ _ _ harguments tested := harguments.cons_expr _ tested
  filter _ _ _ _ hinput harguments tested := ((hinput false).append harguments).cons_expr _ tested
  test _ _ n _ hinput _ harguments tested :=
    ((hinput (n = "defined")).append harguments).cons_expr _ tested
  lambda _ _ _ hbody tested := (hbody false).cons_expr _ tested
  binary _ _ _ _ hleft hright tested := ((hleft false).append (hright false)).cons_expr _ tested
  unary _ _ _ hoperand tested := (hoperand false).cons_expr _ tested
  conditional _ _ _ _ hcondition hyes hno tested :=
    (((hcondition false).append (hyes false)).append (hno false)).cons_expr _ tested
  items_nil := .nil
  items_cons _ _ he hrest := (he false).append hrest
  pairs_nil := .nil
  pairs_cons _ _ _ hk hv hrest := ((hk false).append (hv false)).append hrest
  arguments_nil := .nil
  arguments_cons _ _ _ he hrest := (he false).append hrest

theorem enumerates_nodes (e : Expr) (tested : Bool) : Enumerates (e.nodes tested) e.subexprs [] :=
  enumerates_cases.expr e tested

theorem enumerates_items (items : List Expr) :
    Enumerates (itemsNodes items) (items.flatMap (·.subexprs)) [] := by
  rw [← itemsExprs_eq]
  exact enumerates_cases.items items

end Expr

namespace Stmt

/-- The nodes of a statement are its expressions and the statements inside it. -/
theorem enumerates_cases : Cases
    (fun s => Enumerates s.nodes s.exprs s.substmts)
    (fun body => Enumerates (bodyNodes body) (bodyExprs body) (bodySubstmts body))
    (fun branches => Enumerates (branchesNodes branches) (branchesExprs branches)
      (branchesSubstmts branches)) where
  text _ _ := Enumerates.nil.cons_stmt _
  print e _ := (e.enumerates_nodes false).cons_stmt _
  types _ := Enumerates.nil.cons_stmt _
  guarded _ _ := Enumerates.nil.cons_stmt _
  assign _ values _ := (Expr.enumerates_items values).cons_stmt _
  loop _ _ source _ _ _ hbody helse :=
    (((source.enumerates_nodes false).append hbody).append helse).cons_stmt _
  branch _ _ _ hbranches helse := (hbranches.append helse).cons_stmt _
  macroDecl _ params _ _ hbody :=
    ((Expr.enumerates_items (MacroParam.defaults params)).append hbody).cons_stmt _
  imports i := (i.template.enumerates_nodes false).cons_stmt _
  body_nil := .nil
  body_cons _ _ hs hrest := hs.append hrest
  branches_nil := .nil
  branches_cons condition _ _ hbody hrest :=
    ((condition.enumerates_nodes false).append hbody).append hrest

theorem enumerates_bodyNodes (body : List Stmt) :
    Enumerates (bodyNodes body) (bodyExprs body) (bodySubstmts body) :=
  enumerates_cases.body body

end Stmt

/-! ### What a node deserves -/

/-- The codes of the findings that do not depend on the variables in scope. -/
def Code.isScopeFree (c : Code) : Bool :=
  [unknownMacro, tooManyArguments, tooFewArguments, invalidNamedArgument, positionalAfterNamed,
    requiredAfterOptional, invalidEnumCase, invalidConstant].contains c

/-- The inspections that report these findings. -/
def Inspection.isScopeFree : Inspection → Bool
  | unknownMacro | badArgumentCount | invalidNamedArgument | positionalAfterNamed
  | requiredAfterOptional | invalidEnumCase | invalidConstant => true
  | _ => false

theorem Code.isScopeFree_of_inspection {c : Code} {i : Inspection} (h : c.inspection? = some i) :
    c.isScopeFree = i.isScopeFree := by
  have hcode : ∀ n : Nat, n < UInt16.size → c.number.toNat = n → c = ⟨UInt16.ofNat n⟩ := by
    intro n hn he
    rw [← he, UInt16.ofNat_toNat]
  unfold inspection? at h
  split at h <;> cases h
  all_goals
    rename_i he
    rw [hcode _ (by decide) he]
    rfl

namespace Site

/-- The findings of the arguments of `constant`. -/
def constantFindings (c : Site) (arguments : List (Argument Expr)) (s : Span) : List Diagnostic :=
  ((c.constantError? arguments).map fun reason =>
    Diagnostic.error .invalidConstant
      ("Invalid constant() call: " ++ reason ++ " " ++ (c.place s).suffix) (c.place s)).toList

/-- The findings that a node deserves, wherever it stands and whatever is in scope. -/
def nodeFindings (c : Site) : Node → List Diagnostic
  | .stmt (.macroDecl name params body s) =>
    (Macro.badDeclaration? (.ofDecl name.name params body) (c.place s)).toList
  | .expr (.macroCall s target n arguments) _ =>
    (Macro.outOfOrder? arguments (c.place s)).toList ++
    match c.registry.resolve target n with
    | .resolved sig => Macro.validateCall {} sig n arguments (c.place s)
    | .hidden => []
    | .unknown =>
      [.error .unknownMacro ("Unknown macro '" ++ n ++ "' " ++ (c.place s).suffix) (c.place s)]
  | .expr (.member s receiver attr _ _) _ =>
    (((enumTarget? receiver).bind fun e => c.classes.enumCaseError? e attr).map
      (c.refused .invalidEnumCase s)).toList
  | .expr (.function s n arguments) tested =>
    if n = "constant" ∧ tested = false then c.constantFindings arguments s else []
  | .expr (.test s _ n arguments) _ =>
    if n = "constant" then c.constantFindings arguments s else []
  | _ => []

/-- Among findings, those that do not depend on variables are the ones that the nodes deserve. -/
def Covers (c : Site) (ds : List Diagnostic) (ns : List Node) : Prop :=
  ds.filter (·.code.isScopeFree) ~ ns.flatMap c.nodeFindings

theorem covers_nil (c : Site) : c.Covers [] [] := .nil

theorem Covers.append {c : Site} {ds es : List Diagnostic} {ns ms : List Node}
    (hd : c.Covers ds ns) (he : c.Covers es ms) : c.Covers (ds ++ es) (ns ++ ms) := by
  unfold Covers at hd he ⊢
  rw [List.filter_append, List.flatMap_append]
  exact hd.append he

/-- A node in front of others. -/
theorem Covers.cons {c : Site} {ds es : List Diagnostic} {n : Node} {ns : List Node}
    (hd : c.Covers ds [n]) (he : c.Covers es ns) : c.Covers (ds ++ es) (n :: ns) :=
  hd.append he

/-- A node that deserves nothing, in front of others. -/
theorem Covers.cons_of_nil {c : Site} {ds : List Diagnostic} {n : Node} {ns : List Node}
    (h : c.Covers ds ns) (hn : c.nodeFindings n = []) : c.Covers ds (n :: ns) := by
  unfold Covers at h ⊢
  rw [List.flatMap_cons, hn, List.nil_append]
  exact h

theorem covers_nothing {c : Site} {n : Node} (hn : c.nodeFindings n = []) : c.Covers [] [n] :=
  c.covers_nil.cons_of_nil hn

/-- The findings of one node. -/
theorem covers_single {c : Site} {ds : List Diagnostic} {n : Node}
    (h : ds.filter (·.code.isScopeFree) = c.nodeFindings n) : c.Covers ds [n] := by
  unfold Covers
  rw [h, List.flatMap_singleton]

variable {c : Site}

theorem Gates.inspection_mem {is : List Inspection} {ds every : List Diagnostic}
    (h : c.Gates is ds every) : ∀ d ∈ ds, ∃ i ∈ is, d.code.inspection? = some i := by
  induction h with
  | nil => exact nofun
  | @gated i ds hi howned =>
    intro d hd
    rw [Site.gated] at hd
    split at hd
    · exact ⟨i, hi, howned d hd⟩
    · exact absurd hd List.not_mem_nil
  | append _ _ ihd ihe =>
    intro d hd
    rcases List.mem_append.mp hd with hd | hd
    · exact ihd d hd
    · exact ihe d hd

/-- Findings of scope-free inspections all count. -/
theorem Gates.filter_scopeFree {is : List Inspection} {ds every : List Diagnostic}
    (h : c.Gates is ds every) (his : ∀ i ∈ is, i.isScopeFree = true) :
    ds.filter (·.code.isScopeFree) = ds := by
  rw [List.filter_eq_self]
  intro d hd
  obtain ⟨i, hi, hcode⟩ := h.inspection_mem d hd
  rw [Code.isScopeFree_of_inspection hcode, his i hi]

/-- Findings of the other inspections do not count. -/
theorem Gates.filter_scoped {is : List Inspection} {ds every : List Diagnostic}
    (h : c.Gates is ds every) (his : ∀ i ∈ is, i.isScopeFree = false) :
    ds.filter (·.code.isScopeFree) = [] := by
  rw [List.filter_eq_nil_iff]
  intro d hd
  obtain ⟨i, hi, hcode⟩ := h.inspection_mem d hd
  rw [Code.isScopeFree_of_inspection hcode, his i hi]
  exact Bool.false_ne_true

theorem covers_name (inside : Option String) (n : String) (s : Span) (m : Scope) (tested : Bool) :
    c.Covers (c.nameFindings inside n s m) [.expr (.name s n) tested] :=
  covers_single ((c.gates_name inside n s m).filter_scoped (by decide))

theorem covers_types (a : Contract) {n : Node} (hn : c.nodeFindings n = []) :
    c.Covers (c.typesFindings a) [n] := by
  apply covers_single
  rw [(c.gates_types a).filter_scoped (by decide), hn]

/-- The mark matters for functions only. -/
theorem Covers.mark {e : Expr} {ds : List Diagnostic} (h : c.Covers ds (e.nodes false))
    (he : ∀ s n arguments, e ≠ .function s n arguments) (tested : Bool) :
    c.Covers ds (e.nodes tested) := by
  cases e with
  | function s n arguments => exact absurd rfl (he s n arguments)
  | _ => exact h

section Enabled

variable (hc : ∀ i, c.config.isEnabled i = true)
include hc

theorem gated_eq (i : Inspection) (ds : List Diagnostic) : c.gated i ds = ds := if_pos (hc i)

/-- A macro call. -/
theorem covers_call (target : MacroTarget) (n : String) (arguments : List (Argument Expr))
    (s : Span) (tested : Bool) :
    c.Covers (c.callFindings target n arguments s)
      [.expr (.macroCall s target n arguments) tested] := by
  apply covers_single
  rw [(c.gates_call target n arguments s).filter_scopeFree (by decide), callFindings_eq,
    gated_eq hc]
  show _ ++ _ = _ ++ _
  congr 1
  cases c.registry.resolve target n with
  | resolved sig => simp only [resolutionFindings, gated_eq hc, Macro.validateCall, if_true]
  | hidden => rfl
  | unknown => exact gated_eq hc _ _

/-- An attribute access: the case of an enumeration counts, the attribute of a variable does not. -/
theorem covers_access (receiver : Expr) (attr : String) (access : AccessKind)
    (arguments : List (Argument Expr)) (s : Span) (m : Scope) (tested : Bool) :
    c.Covers (c.accessFindings receiver attr access s m)
      [.expr (.member s receiver attr access arguments) tested] := by
  apply covers_single
  have hcase : ∀ o : Option AccessError, c.Gates [.invalidEnumCase]
      (c.gated .invalidEnumCase (o.map (c.refused .invalidEnumCase s)).toList)
      (o.map (c.refused .invalidEnumCase s)).toList :=
    fun o => .gated (by decide) (Owned.toList_map fun _ => rfl)
  have hdot : ∀ o : Option AccessError, c.Gates [.invalidDotOperation]
      (c.gated .invalidDotOperation (o.map (c.refused .invalidAttributeAccess s)).toList)
      (o.map (c.refused .invalidAttributeAccess s)).toList :=
    fun o => .gated (by decide) (Owned.toList_map fun _ => rfl)
  rw [accessFindings, List.filter_append, (hcase _).filter_scopeFree (by decide),
    (hdot _).filter_scoped (by decide), List.append_nil, gated_eq hc]
  rfl

theorem namedFindings_eq (n : String) (arguments : List (Argument Expr)) (s : Span) :
    c.namedFindings n arguments s
      = if n = "constant" then c.constantFindings arguments s else [] := by
  by_cases hn : n = "constant"
  · simp only [namedFindings, checkNamed, hn, if_true, checkConstant, findings_reports]
    exact gated_eq hc _ _
  · simp only [namedFindings, checkNamed, hn, if_false]
    rfl

theorem covers_function (n : String) (arguments : List (Argument Expr)) (s : Span) :
    c.Covers (c.namedFindings n arguments s) [.expr (.function s n arguments) false] := by
  apply covers_single
  rw [(c.gates_named n arguments s).filter_scopeFree (by decide), namedFindings_eq hc]
  simp only [nodeFindings, and_true]

/-- The check of a test comes behind that of its input, and its node before that of its input. -/
theorem covers_test {n : String} (hn : n ≠ "defined") {inside : Option String} {m : Scope}
    {s : Span} {input : Expr} {arguments : List (Argument Expr)} {tested : Bool}
    (hinput : c.Covers (c.exprFindings inside input m) (input.nodes false))
    (harguments : c.Covers (c.argumentsFindings inside arguments m)
      (Expr.argumentsNodes arguments)) :
    c.Covers (c.exprFindings inside (.test s input n arguments) m)
      ((Expr.test s input n arguments).nodes tested) := by
  have hnamed : c.Covers (c.namedFindings n arguments s)
      [.expr (.test s input n arguments) tested] := by
    apply covers_single
    rw [(c.gates_named n arguments s).filter_scopeFree (by decide), namedFindings_eq hc]
    rfl
  have hall := hnamed.cons (hinput.append harguments)
  -- the findings of the input pass those of the test itself
  have hswap : c.exprFindings inside (.test s input n arguments) m
      ~ c.namedFindings n arguments s ++
        (c.exprFindings inside input m ++ c.argumentsFindings inside arguments m) := by
    rw [exprFindings_test_other _ _ _ _ hn, ← List.append_assoc]
    exact List.perm_append_comm.append_right _
  rw [Expr.nodes, decide_eq_false hn]
  exact (hswap.filter _).trans hall

/-- Every expression, whatever is in scope. -/
theorem covers_exprCases (inside : Option String) : Expr.Cases
    (fun e => ∀ m, c.Covers (c.exprFindings inside e m) (e.nodes false))
    (fun items => ∀ m, c.Covers (c.exprsFindings inside items m) (Expr.itemsNodes items))
    (fun pairs => ∀ m, c.Covers (c.pairsFindings inside pairs m) (Expr.pairsNodes pairs))
    (fun arguments => ∀ m, c.Covers (c.argumentsFindings inside arguments m)
      (Expr.argumentsNodes arguments)) where
  null _ _ := covers_nothing rfl
  bool _ _ _ := covers_nothing rfl
  number _ _ _ := covers_nothing rfl
  string _ _ _ := covers_nothing rfl
  array _ _ hitems m := (hitems m).cons_of_nil rfl
  hash _ _ hpairs m := (hpairs m).cons_of_nil rfl
  name s n m := covers_name inside n s m false
  member s receiver attr access arguments hreceiver harguments m := by
    have haccess := covers_access hc receiver attr access arguments s m false
    exact (haccess.cons (hreceiver m)).append (harguments m)
  macroCall s target n arguments harguments m :=
    (covers_call hc target n arguments s false).cons (harguments m)
  function s n arguments harguments m := (covers_function hc n arguments s).cons (harguments m)
  filter _ _ _ _ hinput harguments m := ((hinput m).append (harguments m)).cons_of_nil rfl
  test s input n arguments hinput hinner harguments m := by
    cases input, n using Expr.testCases with
    | name sp x =>
      rw [exprFindings_test_name]
      exact ((covers_nothing rfl).append (harguments m)).cons_of_nil rfl
    | function sp f inner =>
      have hfunction : c.nodeFindings (.expr (.function sp f inner) true) = [] :=
        if_neg fun h => Bool.false_ne_true h.2.symm
      rw [exprFindings_test_function]
      exact (((hinner m).cons_of_nil hfunction).append (harguments m)).cons_of_nil rfl
    | defined input hname hfunction =>
      rw [exprFindings_test_defined _ _ _ _ hname hfunction]
      exact (((hinput m).mark hfunction true).append (harguments m)).cons_of_nil rfl
    | other input n hn => exact covers_test hc hn (hinput m) (harguments m)
  lambda _ _ _ hbody _ := (hbody _).cons_of_nil rfl
  binary _ _ _ _ hleft hright m := ((hleft m).append (hright m)).cons_of_nil rfl
  unary _ _ _ hoperand m := (hoperand m).cons_of_nil rfl
  conditional _ _ _ _ hcondition hyes hno m :=
    (((hcondition m).append (hyes m)).append (hno m)).cons_of_nil rfl
  items_nil _ := c.covers_nil
  items_cons _ _ he hrest m := (he m).append (hrest m)
  pairs_nil _ := c.covers_nil
  pairs_cons _ _ _ hk hv hrest m := ((hk m).append (hv m)).append (hrest m)
  arguments_nil _ := c.covers_nil
  arguments_cons _ _ _ he hrest m := (he m).append (hrest m)

theorem covers_expr (inside : Option String) (e : Expr) (m : Scope) :
    c.Covers (c.exprFindings inside e m) (e.nodes false) :=
  (covers_exprCases hc inside).expr e m

theorem covers_items (inside : Option String) (items : List Expr) (m : Scope) :
    c.Covers (c.exprsFindings inside items m) (Expr.itemsNodes items) :=
  (covers_exprCases hc inside).items items m

theorem covers_signature (name : Ident) (params : List MacroParam) (body : List Stmt) (s : Span) :
    c.Covers (c.signatureFindings name.name params body s)
      [.stmt (.macroDecl name params body s)] := by
  apply covers_single
  rw [(c.gates_signature name.name params body s).filter_scopeFree (by decide)]
  simp only [signatureFindings, checkSignature, findings_reports, gated_eq hc]
  rfl

/-- Every statement, whatever is in scope before it. -/
theorem covers_stmtCases : Stmt.Cases
    (fun s => ∀ inside m, c.Covers (c.stmtFindings inside s m) s.nodes)
    (fun body => ∀ inside m, c.Covers (c.bodyFindings inside body m) (Stmt.bodyNodes body))
    (fun branches => ∀ inside m, c.Covers (c.branchesFindings inside branches m)
      (Stmt.branchesNodes branches)) where
  text _ _ _ _ := covers_nothing rfl
  print e _ inside m := (covers_expr hc inside e m).cons_of_nil rfl
  types a _ _ := covers_types a rfl
  guarded a _ _ _ := covers_types a rfl
  assign _ values _ inside _ := (covers_items hc inside values _).cons_of_nil rfl
  loop _ _ source _ _ _ hbody helse inside m := by
    have hsource := covers_expr hc inside source m
    exact ((hsource.append (hbody inside _)).append (helse inside _)).cons_of_nil rfl
  branch _ _ _ hbranches helse inside m :=
    ((hbranches inside m).append (helse inside _)).cons_of_nil rfl
  macroDecl name params body sp hbody inside m := by
    have hdefaults := covers_items hc inside (MacroParam.defaults params) m
    have hhead := (covers_signature hc name params body sp).cons hdefaults
    exact hhead.append (hbody (some name.name) _)
  imports i inside m := (covers_expr hc inside i.template m).cons_of_nil rfl
  body_nil _ _ := c.covers_nil
  body_cons _ _ hs hrest inside m := (hs inside m).append (hrest inside _)
  branches_nil _ _ := c.covers_nil
  branches_cons condition _ _ hbody hrest inside m :=
    ((covers_expr hc inside condition m).append (hbody inside m)).append (hrest inside _)

theorem covers_walk (body : List Stmt) :
    c.Covers (Event.findings (c.walk body)) (Stmt.bodyNodes body) := by
  rw [findings_walk]
  exact (covers_stmtCases hc).body body none .empty

end Enabled

/-- **Checks of single nodes cover the template, each node once.**  With every inspection enabled,
the findings of a walk that do not depend on variables are those that the nodes of the template
deserve, as a multiset; with some inspections disabled they are the ones of these that the
configuration keeps.  The nodes are the expressions and the statements of the template at any
depth, each once. -/
theorem scopeFree_findings_perm (c : Site) (body : List Stmt) :
    (Event.findings (c.enableAll.walk body)).filter (·.code.isScopeFree)
        ~ (Stmt.bodyNodes body).flatMap c.nodeFindings ∧
      (Event.findings (c.walk body)).filter (·.code.isScopeFree)
        ~ ((Stmt.bodyNodes body).flatMap c.nodeFindings).filter c.config.keeps ∧
      (Stmt.bodyNodes body).filterMap Node.expr? = Stmt.bodyExprs body ∧
      (Stmt.bodyNodes body).filterMap Node.stmt? = Stmt.bodySubstmts body := by
  have hc : ∀ i, c.enableAll.config.isEnabled i = true := fun _ => rfl
  have henabled : c.enableAll.Covers (Event.findings (c.enableAll.walk body))
      (Stmt.bodyNodes body) := covers_walk hc body
  have hnodes := Stmt.enumerates_bodyNodes body
  refine ⟨henabled, ?_, hnodes.exprs_eq, hnodes.stmts_eq⟩
  have hkept : Event.findings (c.walk body)
      = (Event.findings (c.enableAll.walk body)).filter c.config.keeps := filtered_walk body c
  have hcomm : (Event.findings (c.walk body)).filter (·.code.isScopeFree)
      = ((Event.findings (c.enableAll.walk body)).filter (·.code.isScopeFree)).filter
        c.config.keeps := by
    rw [hkept, List.filter_filter, List.filter_filter]
    exact List.filter_congr fun d _ => Bool.and_comm _ _
  rw [hcomm]
  exact henabled.filter c.config.keeps

end Site

end TemplateContracts
