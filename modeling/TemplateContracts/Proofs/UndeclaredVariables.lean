import TemplateContracts.Proofs.Inspections

/-!
# Undeclared variables

The walk decides from its environment whether a variable inside a macro is declared.  This file says
the same from the place of the variable alone.

* `Surrounding` : something that stands around a variable, or before it in the order of reading;
* `Occurrence` : a variable with all that surrounds it, from the inside out;
* `Stmt.bodyOccurrences` : every variable of a list of statements, in the order of reading;
* `declaresFrom` : whether a name is declared by what surrounds it, looking outward as far as the
  innermost macro body and no further;
* `Site.undeclaredFinding?` : the finding that an occurrence deserves, if any, with
  `Site.undeclaredFinding?_eq_some_iff`, which names all that keeps it from one;
* `Agrees` : a map holds just the names that are declared by what surrounds a place.  Each step from
  a node to a part of it keeps this;
* `Site.undeclared_findings_eq` : **the walk reports each occurrence that deserves it, once, and
  nothing else**.
-/

namespace TemplateContracts

/-- Something that stands around a variable, or before it in the order of reading. -/
inductive Surrounding where
  /-- Statements before it, whole ones or the bodies of a loop or of branches it stands behind. -/
  | behind (earlier : List Stmt)
  /-- It stands in a value of an assignment to the names. -/
  | valueOf (names : List Ident)
  /-- It stands in the body of a loop, not in its source and not in its `else`. -/
  | loopBody (key : Option Ident) (value : Ident)
  | lambdaBody (params : List Ident)
  | macroBody (name : Ident) (params : List MacroParam)

namespace Surrounding

/-- Whether it is the body of a macro. -/
def isMacroBody : Surrounding → Bool
  | macroBody _ _ => true
  | _ => false

/-- Whether a name is declared by it. -/
def binds (x : String) : Surrounding → Bool
  | behind earlier => (Stmt.bodyAssigned earlier).contains x
  | valueOf names => (names.map (·.name)).contains x
  | loopBody key value => (Site.loopTargets key value).contains x
  | lambdaBody params => (params.map (·.name)).contains x
  | macroBody _ params => (params.map (·.name.name)).contains x

theorem binds_loopBody_iff (key : Option Ident) (value : Ident) (x : String) :
    (loopBody key value).binds x = true ↔
      x = "loop" ∨ x = value.name ∨ (key = none ∧ x = "_key") ∨ ∃ k, key = some k ∧ x = k.name := by
  rw [binds, List.contains_iff_mem, Site.mem_loopTargets_iff]

end Surrounding

/-- Whether a name is declared by what surrounds it, from the inside out: the innermost macro body
is the last thing that counts. -/
def declaresFrom (x : String) : List Surrounding → Bool
  | [] => false
  | l :: outer => l.binds x || (!l.isMacroBody && declaresFrom x outer)

/-- The name of the innermost macro in whose body something stands. -/
def innermostMacro? : List Surrounding → Option Ident
  | [] => none
  | .macroBody name _ :: _ => some name
  | _ :: outer => innermostMacro? outer

/-- A variable and all that surrounds it, from the inside out. -/
structure Occurrence where
  name : String
  span : Span
  surroundings : List Surrounding
  /-- Whether it is the direct input of a test `defined`. -/
  tested : Bool

/-! ### The variables of a template -/

namespace Expr

mutual

/-- The variables of an expression in given surroundings, in the order of reading. -/
def occurrences (around : List Surrounding) : Expr → List Occurrence
  | null _ | bool _ _ | number _ _ | string _ _ => []
  | array _ items => itemsOccurrences around items
  | hash _ pairs => pairsOccurrences around pairs
  | name s n => [⟨n, s, around, false⟩]
  | member _ receiver _ _ arguments =>
    occurrences around receiver ++ argumentsOccurrences around arguments
  | macroCall _ _ _ arguments => argumentsOccurrences around arguments
  | function _ _ arguments => argumentsOccurrences around arguments
  | filter _ input _ arguments =>
    occurrences around input ++ argumentsOccurrences around arguments
  | test _ input n arguments =>
    (match input with
      | name s x => [⟨x, s, around, n = "defined"⟩]
      | input => occurrences around input) ++ argumentsOccurrences around arguments
  | lambda _ params body => occurrences (.lambdaBody params :: around) body
  | binary _ _ left right => occurrences around left ++ occurrences around right
  | unary _ _ operand => occurrences around operand
  | conditional _ condition yes no =>
    occurrences around condition ++ occurrences around yes ++ occurrences around no

/-- The variables of expressions. -/
def itemsOccurrences (around : List Surrounding) : List Expr → List Occurrence
  | [] => []
  | e :: rest => occurrences around e ++ itemsOccurrences around rest

/-- The variables of the pairs of a hash. -/
def pairsOccurrences (around : List Surrounding) : List (Expr × Expr) → List Occurrence
  | [] => []
  | (k, v) :: rest =>
    occurrences around k ++ occurrences around v ++ pairsOccurrences around rest

/-- The variables of arguments. -/
def argumentsOccurrences (around : List Surrounding) : List (Argument Expr) → List Occurrence
  | [] => []
  | ⟨_, e⟩ :: rest => occurrences around e ++ argumentsOccurrences around rest

end

end Expr

namespace Stmt

mutual

/-- The variables of a statement in given surroundings, in the order of reading. -/
def occurrences (around : List Surrounding) : Stmt → List Occurrence
  | text _ _ | types _ | guarded _ _ => []
  | print e _ => e.occurrences around
  | assign names values _ => Expr.itemsOccurrences (.valueOf names :: around) values
  | loop key value source body orElse _ =>
    source.occurrences around ++ bodyOccurrences (.loopBody key value :: around) body ++
      bodyOccurrences (.behind body :: around) orElse
  | branch branches orElse _ =>
    branchesOccurrences around branches ++
      bodyOccurrences (.behind (branches.flatMap (·.body)) :: around) orElse
  | macroDecl name params body _ =>
    -- the defaults stand in the surrounding body
    Expr.itemsOccurrences around (MacroParam.defaults params) ++
      bodyOccurrences (.macroBody name params :: around) body
  | imports i => i.template.occurrences around

/-- The variables of statements: each statement stands behind those before it. -/
def bodyOccurrences (around : List Surrounding) : List Stmt → List Occurrence
  | [] => []
  | s :: rest => occurrences around s ++ bodyOccurrences (.behind [s] :: around) rest

/-- The variables of branches: each branch stands behind the bodies before it. -/
def branchesOccurrences (around : List Surrounding) : List (Branch Stmt) → List Occurrence
  | [] => []
  | ⟨condition, body⟩ :: rest =>
    condition.occurrences around ++ bodyOccurrences around body ++
      branchesOccurrences (.behind body :: around) rest

end

end Stmt

/-- The finding of an occurrence: it stands in the body of a macro, it is not tested for being
defined, and nothing declares it. -/
def Site.undeclaredFinding? (c : Site) (o : Occurrence) : Option Diagnostic :=
  match innermostMacro? o.surroundings with
  | none => none
  | some inside =>
    if o.tested || declaresFrom o.name o.surroundings || c.isImplicit o.name then none
    else some (c.undeclared inside.name o.name o.span)

/-- An occurrence is reported just if it stands in the body of a macro and is not tested for being
defined, nothing around it declares its name, and the name is none of those that need no
declaration. -/
theorem Site.undeclaredFinding?_eq_some_iff (c : Site) (o : Occurrence) (d : Diagnostic) :
    c.undeclaredFinding? o = some d ↔
      ∃ inside, innermostMacro? o.surroundings = some inside ∧ o.tested = false ∧
        declaresFrom o.name o.surroundings = false ∧ o.name ∉ c.config.globals ∧
        o.name ≠ "varargs" ∧ o.name ≠ "_self" ∧ (∀ rest, o.name ≠ "__internal" ++ rest) ∧
        c.undeclared inside.name o.name o.span = d := by
  have himplicit : c.isImplicit o.name = false ↔ o.name ∉ c.config.globals ∧
      o.name ≠ "varargs" ∧ o.name ≠ "_self" ∧ ∀ rest, o.name ≠ "__internal" ++ rest := by
    rw [← Bool.not_eq_true, isImplicit_iff, not_or, not_or, not_or, not_exists]
  rw [undeclaredFinding?]
  cases innermostMacro? o.surroundings with
  | none => simp
  | some inside =>
    simp only [Option.ite_none_left_eq_some, Bool.not_eq_true, Bool.or_eq_false_iff, himplicit,
      Option.some.injEq, exists_eq_left', and_assoc]

/-! ### No variable is missed -/

/-- Whether an expression is a variable. -/
def Expr.isName (e : Expr) : Bool := e.asName?.isSome

/-- The expression that an occurrence is. -/
def Occurrence.expr (o : Occurrence) : Expr := .name o.span o.name

namespace Expr

/-- The occurrences of an expression are its variables, each once, in the order of reading. -/
theorem map_expr_cases : Cases
    (fun e => ∀ around, (e.occurrences around).map Occurrence.expr = e.subexprs.filter isName)
    (fun items => ∀ around, (itemsOccurrences around items).map Occurrence.expr
      = (itemsExprs items).filter isName)
    (fun pairs => ∀ around, (pairsOccurrences around pairs).map Occurrence.expr
      = (pairsExprs pairs).filter isName)
    (fun arguments => ∀ around, (argumentsOccurrences around arguments).map Occurrence.expr
      = (argumentsExprs arguments).filter isName) where
  null _ _ := rfl
  bool _ _ _ := rfl
  number _ _ _ := rfl
  string _ _ _ := rfl
  array _ _ hitems := hitems
  hash _ _ hpairs := hpairs
  name _ _ _ := rfl
  member _ receiver _ _ arguments hreceiver harguments around := by
    show _ = (receiver.subexprs ++ argumentsExprs arguments).filter isName
    rw [occurrences, List.map_append, List.filter_append, hreceiver, harguments]
  macroCall _ _ _ _ harguments := harguments
  function _ _ _ harguments := harguments
  filter _ input _ arguments hinput harguments around := by
    show _ = (input.subexprs ++ argumentsExprs arguments).filter isName
    rw [occurrences, List.map_append, List.filter_append, hinput, harguments]
  test _ input _ arguments hinput _ harguments around := by
    show _ = (input.subexprs ++ argumentsExprs arguments).filter isName
    rw [List.filter_append, ← harguments around, ← hinput around]
    cases input <;> exact List.map_append
  lambda _ _ _ hbody _ := hbody _
  binary _ _ left right hleft hright around := by
    show _ = (left.subexprs ++ right.subexprs).filter isName
    rw [occurrences, List.map_append, List.filter_append, hleft, hright]
  unary _ _ _ hoperand := hoperand
  conditional _ condition yes no hcondition hyes hno around := by
    show _ = (condition.subexprs ++ yes.subexprs ++ no.subexprs).filter isName
    rw [occurrences, List.map_append, List.map_append, List.filter_append, List.filter_append,
      hcondition, hyes, hno]
  items_nil _ := rfl
  items_cons _ _ he hrest around := by
    rw [itemsOccurrences, itemsExprs, List.map_append, List.filter_append, he, hrest]
  pairs_nil _ := rfl
  pairs_cons _ _ _ hk hv hrest around := by
    rw [pairsOccurrences, pairsExprs, List.map_append, List.map_append, List.filter_append,
      List.filter_append, hk, hv, hrest]
  arguments_nil _ := rfl
  arguments_cons _ _ _ he hrest around := by
    rw [argumentsOccurrences, argumentsExprs, List.map_append, List.filter_append, he, hrest]

theorem map_expr_occurrences (e : Expr) (around : List Surrounding) :
    (e.occurrences around).map Occurrence.expr = e.subexprs.filter isName :=
  map_expr_cases.expr e around

theorem map_expr_itemsOccurrences (items : List Expr) (around : List Surrounding) :
    (itemsOccurrences around items).map Occurrence.expr
      = (items.flatMap (·.subexprs)).filter isName := by
  rw [← itemsExprs_eq]
  exact map_expr_cases.items items around

end Expr

namespace Stmt

/-- The occurrences of a statement are its variables, each once, in the order of reading. -/
theorem map_expr_cases : Cases
    (fun s => ∀ around, (s.occurrences around).map Occurrence.expr = s.exprs.filter Expr.isName)
    (fun body => ∀ around, (bodyOccurrences around body).map Occurrence.expr
      = (bodyExprs body).filter Expr.isName)
    (fun branches => ∀ around, (branchesOccurrences around branches).map Occurrence.expr
      = (branchesExprs branches).filter Expr.isName) where
  text _ _ _ := rfl
  print e _ around := e.map_expr_occurrences around
  types _ _ := rfl
  guarded _ _ _ := rfl
  assign _ values _ _ := Expr.map_expr_itemsOccurrences values _
  loop _ _ _ _ _ _ hbody helse around := by
    rw [occurrences, exprs, List.map_append, List.map_append, List.filter_append,
      List.filter_append, Expr.map_expr_occurrences, hbody, helse]
  branch _ _ _ hbranches helse around := by
    rw [occurrences, exprs, List.map_append, List.filter_append, hbranches, helse]
  macroDecl _ _ _ _ hbody around := by
    rw [occurrences, exprs, List.map_append, List.filter_append, Expr.map_expr_itemsOccurrences,
      hbody]
  imports i around := i.template.map_expr_occurrences around
  body_nil _ := rfl
  body_cons _ _ hs hrest around := by
    rw [bodyOccurrences, bodyExprs, List.map_append, List.filter_append, hs, hrest]
  branches_nil _ := rfl
  branches_cons _ _ _ hbody hrest around := by
    rw [branchesOccurrences, branchesExprs, List.map_append, List.map_append, List.filter_append,
      List.filter_append, Expr.map_expr_occurrences, hbody, hrest]

/-- The names that branches declare, read off their statements in a row. -/
theorem branchesAssigned_eq (branches : List (Branch Stmt)) :
    branchesAssigned branches = bodyAssigned (branches.flatMap (·.body)) := by
  have happend : ∀ body body' : List Stmt,
      bodyAssigned (body ++ body') = bodyAssigned body ++ bodyAssigned body' := by
    intro body body'
    induction body with
    | nil => rfl
    | cons s rest ih => rw [List.cons_append, bodyAssigned, bodyAssigned, ih, List.append_assoc]
  induction branches with
  | nil => rfl
  | cons b rest ih => rw [branchesAssigned, ih, List.flatMap_cons, happend]

end Stmt

/-! ### A place and the map at it -/

/-- `inside` is the macro around a place, and `m` holds just the names declared there. -/
structure Agrees (around : List Surrounding) (inside : Option String) (m : Scope) : Prop where
  inside_eq : inside = (innermostMacro? around).map (·.name)
  isSome_eq : ∀ x, (m x).isSome = declaresFrom x around

namespace Agrees

variable {around : List Surrounding} {inside : Option String} {m : Scope}

theorem outermost : Agrees [] none .empty := ⟨rfl, fun _ => rfl⟩

theorem behind (h : Agrees around inside m) {earlier : List Stmt} {after : Scope → Scope}
    (hafter : Scope.Declares (Stmt.bodyAssigned earlier) after) :
    Agrees (.behind earlier :: around) inside (after m) := by
  refine ⟨h.inside_eq, fun x => ?_⟩
  rw [hafter.eq_atop, Scope.isSome_atop, hafter.isSome_iff, h.isSome_eq]
  rfl

theorem valueOf (h : Agrees around inside m) (names : List Ident) :
    Agrees (.valueOf names :: around) inside (m.bindNew (names.map (·.name))) := by
  refine ⟨h.inside_eq, fun x => ?_⟩
  rw [Scope.isSome_bindNew, h.isSome_eq]
  rfl

theorem loopBody (h : Agrees around inside m) (key : Option Ident) (value : Ident) :
    Agrees (.loopBody key value :: around) inside (m.bindAll (Site.loopTargets key value)) := by
  refine ⟨h.inside_eq, fun x => ?_⟩
  rw [Scope.isSome_bindAll, h.isSome_eq]
  rfl

theorem lambdaBody (h : Agrees around inside m) (params : List Ident) :
    Agrees (.lambdaBody params :: around) inside (m.bindAll (params.map (·.name))) := by
  refine ⟨h.inside_eq, fun x => ?_⟩
  rw [Scope.isSome_bindAll, h.isSome_eq]
  rfl

/-- The body of a macro sees its parameters and nothing from outside. -/
theorem macroBody (around : List Surrounding) (name : Ident) (params : List MacroParam) :
    Agrees (.macroBody name params :: around) (some name.name)
      (Scope.empty.bindAll (params.map (·.name.name))) := by
  refine ⟨rfl, fun x => ?_⟩
  rw [Scope.isSome_bindAll]
  rfl

end Agrees

/-! ### Findings and occurrences -/

namespace Site

/-- The undeclared variables among findings are those that occurrences deserve, in order. -/
def Accounts (c : Site) (ds : List Diagnostic) (os : List Occurrence) : Prop :=
  ds.filter (·.code == .undeclaredVariable) = os.filterMap c.undeclaredFinding?

theorem accounts_nil (c : Site) : c.Accounts [] [] := rfl

theorem Accounts.append {c : Site} {ds es : List Diagnostic} {os ps : List Occurrence}
    (hd : c.Accounts ds os) (he : c.Accounts es ps) : c.Accounts (ds ++ es) (os ++ ps) := by
  unfold Accounts at hd he ⊢
  rw [List.filter_append, List.filterMap_append, hd, he]

/-- Findings of other inspections are about no occurrence. -/
theorem Gates.accounts {c : Site} {is : List Inspection} {ds every : List Diagnostic}
    (h : c.Gates is ds every) (his : .undeclaredVariableInMacro ∉ is) : c.Accounts ds [] := by
  induction h with
  | nil => rfl
  | @gated i ds hi howned =>
    show (c.gated i ds).filter _ = []
    rw [List.filter_eq_nil_iff]
    intro d hd hcode
    have hmem : d ∈ ds := by
      unfold Site.gated at hd
      split at hd
      · exact hd
      · exact absurd hd List.not_mem_nil
    -- the code tells the inspection
    have hown := howned d hmem
    rw [eq_of_beq hcode] at hown
    exact his (Option.some.inj hown ▸ hi)
  | append _ _ ihd ihe => exact ihd.append ihe

variable {c : Site}

theorem accounts_tested (n : String) (s : Span) (around : List Surrounding) :
    c.Accounts [] [⟨n, s, around, true⟩] := by
  have hnone : c.undeclaredFinding? ⟨n, s, around, true⟩ = none := by
    rw [Option.eq_none_iff_forall_ne_some]
    intro d hd
    obtain ⟨_, -, htested, -⟩ := (c.undeclaredFinding?_eq_some_iff _ d).mp hd
    cases htested
  rw [Accounts, List.filterMap_cons_none hnone]
  rfl

section Enabled

variable (hc : c.config.isEnabled .undeclaredVariableInMacro = true)
include hc

/-- A variable is reported exactly if its occurrence deserves it. -/
theorem accounts_name {around : List Surrounding} {inside : Option String} {m : Scope}
    (h : Agrees around inside m) (n : String) (s : Span) :
    c.Accounts (c.nameFindings inside n s m) [⟨n, s, around, false⟩] := by
  show _ = (c.undeclaredFinding? ⟨n, s, around, false⟩).toList
  rw [undeclaredFinding?, h.inside_eq]
  cases innermostMacro? around with
  | none => rfl
  | some name =>
    show (if (m n).isSome || c.isImplicit n then [] else c.gated _ _).filter _
      = (if declaresFrom n around || c.isImplicit n then none else some _ : Option _).toList
    rw [h.isSome_eq]
    split
    · rfl
    · rw [gated, if_pos hc]
      rfl

/-- The expressions of a place, by induction: the surroundings grow with each part.  A variable that
is tested for being defined is passed over. -/
theorem accounts_exprCases (inside : Option String) : Expr.Cases
    (fun e => ∀ around m, Agrees around inside m →
      c.Accounts (c.exprFindings inside e m) (e.occurrences around))
    (fun items => ∀ around m, Agrees around inside m →
      c.Accounts (c.exprsFindings inside items m) (Expr.itemsOccurrences around items))
    (fun pairs => ∀ around m, Agrees around inside m →
      c.Accounts (c.pairsFindings inside pairs m) (Expr.pairsOccurrences around pairs))
    (fun arguments => ∀ around m, Agrees around inside m →
      c.Accounts (c.argumentsFindings inside arguments m)
        (Expr.argumentsOccurrences around arguments)) where
  null _ _ _ _ := c.accounts_nil
  bool _ _ _ _ _ := c.accounts_nil
  number _ _ _ _ _ := c.accounts_nil
  string _ _ _ _ _ := c.accounts_nil
  array _ _ hitems := hitems
  hash _ _ hpairs := hpairs
  name s n _ _ h := accounts_name hc h n s
  member s receiver attr access _ hreceiver harguments _ m h := by
    have haccess := (c.gates_access receiver attr access s m).accounts (by decide)
    exact (haccess.append (hreceiver _ _ h)).append (harguments _ _ h)
  macroCall s target n arguments harguments _ _ h := by
    have hcall := (c.gates_call target n arguments s).accounts (by decide)
    exact hcall.append (harguments _ _ h)
  function s n arguments harguments _ _ h := by
    have hnamed := (c.gates_named n arguments s).accounts (by decide)
    exact hnamed.append (harguments _ _ h)
  filter _ _ _ _ hinput harguments _ _ h := (hinput _ _ h).append (harguments _ _ h)
  test s input n arguments hinput hinner harguments around m h := by
    cases input, n using Expr.testCases with
    | name sp x =>
      have hall := (c.accounts_tested x sp around).append (harguments _ _ h)
      rw [List.nil_append] at hall
      rw [exprFindings_test_name]
      simpa only [Expr.occurrences, decide_true] using hall
    | function sp f inner =>
      rw [exprFindings_test_function]
      exact (hinner _ _ h).append (harguments _ _ h)
    | defined input hname hfunction =>
      rw [exprFindings_test_defined _ _ _ _ hname hfunction, Expr.occurrences]
      · exact (hinput _ _ h).append (harguments _ _ h)
      · exact hname
    | other input n hn =>
      have hnamed := (c.gates_named n arguments s).accounts (by decide)
      have hall := ((hinput _ _ h).append hnamed).append (harguments _ _ h)
      rw [List.append_nil] at hall
      rw [exprFindings_test_other _ _ _ _ hn]
      cases input <;> simpa only [Expr.occurrences, hn, decide_false] using hall
  lambda _ params _ hbody _ _ h := hbody _ _ (h.lambdaBody params)
  binary _ _ _ _ hleft hright _ _ h := (hleft _ _ h).append (hright _ _ h)
  unary _ _ _ hoperand := hoperand
  conditional _ _ _ _ hcondition hyes hno _ _ h :=
    ((hcondition _ _ h).append (hyes _ _ h)).append (hno _ _ h)
  items_nil _ _ _ := c.accounts_nil
  items_cons _ _ he hrest _ _ h := (he _ _ h).append (hrest _ _ h)
  pairs_nil _ _ _ := c.accounts_nil
  pairs_cons _ _ _ hk hv hrest _ _ h := ((hk _ _ h).append (hv _ _ h)).append (hrest _ _ h)
  arguments_nil _ _ _ := c.accounts_nil
  arguments_cons _ _ _ he hrest _ _ h := (he _ _ h).append (hrest _ _ h)

theorem accounts_expr {around : List Surrounding} {inside : Option String} {m : Scope}
    (h : Agrees around inside m) (e : Expr) :
    c.Accounts (c.exprFindings inside e m) (e.occurrences around) :=
  (accounts_exprCases hc inside).expr e around m h

theorem accounts_items {around : List Surrounding} {inside : Option String} {m : Scope}
    (h : Agrees around inside m) (items : List Expr) :
    c.Accounts (c.exprsFindings inside items m) (Expr.itemsOccurrences around items) :=
  (accounts_exprCases hc inside).items items around m h

/-- The statements of a place, by induction: the surroundings and the map grow together. -/
theorem accounts_stmtCases : Stmt.Cases
    (fun s => ∀ inside around m, Agrees around inside m →
      c.Accounts (c.stmtFindings inside s m) (s.occurrences around))
    (fun body => ∀ inside around m, Agrees around inside m →
      c.Accounts (c.bodyFindings inside body m) (Stmt.bodyOccurrences around body))
    (fun branches => ∀ inside around m, Agrees around inside m →
      c.Accounts (c.branchesFindings inside branches m)
        (Stmt.branchesOccurrences around branches)) where
  text _ _ _ _ _ _ := c.accounts_nil
  print e _ _ _ _ h := accounts_expr hc h e
  types a _ _ _ _ := (c.gates_types a).accounts (by decide)
  guarded a _ _ _ _ _ := (c.gates_types a).accounts (by decide)
  assign names values _ _ _ _ h := accounts_items hc (h.valueOf names) values
  loop key value source body _ _ hbody helse _ _ _ h := by
    have hafter := (Stmt.declares_bodyScopeAfter body).takeFrom
      (·.bindAll (loopTargets key value))
    have hinner := hbody _ _ _ (h.loopBody key value)
    exact ((accounts_expr hc h source).append hinner).append (helse _ _ _ (h.behind hafter))
  branch branches _ _ hbranches helse _ _ _ h := by
    have hafter := Stmt.declares_branchesScopeAfter branches
    rw [Stmt.branchesAssigned_eq] at hafter
    exact (hbranches _ _ _ h).append (helse _ _ _ (h.behind hafter))
  macroDecl name params body sp hbody _ around _ h := by
    have hsignature := (c.gates_signature name.name params body sp).accounts (by decide)
    have hdefaults := accounts_items hc h (MacroParam.defaults params)
    exact (hsignature.append hdefaults).append (hbody _ _ _ (Agrees.macroBody around name params))
  imports i _ _ _ h := accounts_expr hc h i.template
  body_nil _ _ _ _ := c.accounts_nil
  body_cons s _ hs hrest _ _ _ h := by
    have hafter : Scope.Declares (Stmt.bodyAssigned [s]) s.scopeAfter := by
      rw [Stmt.bodyAssigned, Stmt.bodyAssigned, List.append_nil]
      exact s.declares_scopeAfter
    exact (hs _ _ _ h).append (hrest _ _ _ (h.behind hafter))
  branches_nil _ _ _ _ := c.accounts_nil
  branches_cons condition body _ hbody hrest _ _ _ h := by
    have hafter := Stmt.declares_bodyScopeAfter body
    have hfirst := (accounts_expr hc h condition).append (hbody _ _ _ h)
    exact hfirst.append (hrest _ _ _ (h.behind hafter))

end Enabled

/-- **Undeclared variables are found exactly.**  Inside the macros of a template, the walk reports
each variable that nothing declares, once and in the order of reading, and no other; and the
occurrences it is compared with are all the variables of the template. -/
theorem undeclared_findings_eq (c : Site)
    (hc : c.config.isEnabled .undeclaredVariableInMacro = true) (body : List Stmt) :
    (Event.findings (c.walk body)).filter (·.code == .undeclaredVariable)
        = (Stmt.bodyOccurrences [] body).filterMap c.undeclaredFinding? ∧
      (Stmt.bodyOccurrences [] body).map Occurrence.expr
        = (Stmt.bodyExprs body).filter Expr.isName := by
  refine ⟨?_, Stmt.map_expr_cases.body body []⟩
  rw [findings_walk]
  exact (accounts_stmtCases hc).body body none [] .empty Agrees.outermost

/-- A site with one global variable and nothing to call. -/
def bare : Site :=
  { config := { globals := ["app"] }, classes := {}, registry := { own := [] }, path := "page" }

/-- A macro with a loop whose target shadows its parameter: `_key` is read in the source and in the
body, `q` is assigned in the body and read behind the loop, and nothing declares `r`.  Then it reads
what needs no declaration: a global, the surplus arguments, the template, a name of the engine. -/
def loopingMacro : List Stmt :=
  [.macroDecl ⟨"m", .ofLine 1⟩ [⟨⟨"p", .ofLine 1⟩, none⟩]
    [.loop none ⟨"p", .ofLine 2⟩ (.name (.ofLine 2) "_key")
      [.assign [⟨"q", .ofLine 3⟩] [.name (.ofLine 3) "q"] (.ofLine 3),
       .print (.name (.ofLine 4) "loop") (.ofLine 4),
       .print (.name (.ofLine 4) "_key") (.ofLine 4)] [] (.ofLine 2),
     .print (.name (.ofLine 5) "q") (.ofLine 5),
     .print (.name (.ofLine 6) "r") (.ofLine 6),
     .print (.name (.ofLine 7) "app") (.ofLine 7),
     .print (.name (.ofLine 8) "varargs") (.ofLine 8),
     .print (.name (.ofLine 9) "_self") (.ofLine 9),
     .print (.name (.ofLine 10) "__internal_parent") (.ofLine 10)] (.ofLine 1)]

theorem undeclared_findings_loopingMacro :
    bare.config.isEnabled .undeclaredVariableInMacro = true ∧
      (Event.findings (bare.walk loopingMacro)).filter (·.code == .undeclaredVariable)
        = [bare.undeclared "m" "_key" (.ofLine 2), bare.undeclared "m" "r" (.ofLine 6)] :=
  ⟨rfl, (undeclared_findings_eq bare rfl loopingMacro).1.trans (by decide)⟩

end Site

end TemplateContracts
