import TemplateContracts.Template.Stmt

/-!
# Induction over templates

Expressions and statements hold lists of their own kind, so what is shown of them by induction is
shown of lists, pairs and branches as well.  Here each induction is a structure: its parameters say
what is to be shown of a tree and of each kind of list inside of it, and its fields are the cases.
A relation between two readings of a template is proved by giving the cases once.

* `Expr.Cases`, `Stmt.Cases` : the cases of an induction over expressions and over statements.  A
  test also has the hypothesis for the arguments of a function that it tests, because a walk may
  pass by the function itself;
* `Expr.Cases.expr`, `Expr.Cases.items`, `Stmt.Cases.stmt`, `Stmt.Cases.body` : what the cases give;
* `Expr.treeInduction`, `Stmt.treeInduction` : induction with the hypothesis for every expression,
  or every statement, that stands directly inside;
* `Expr.testCases` : the four ways in which the input of a test is looked at;
* `Stmt.substmts`, `Stmt.bodySubstmts` : all statements inside of a statement and of a list.
-/

namespace TemplateContracts

namespace Expr

/-- The arguments of an expression that is a function; none of any other. -/
def functionArguments : Expr → List (Argument Expr)
  | .function _ _ arguments => arguments
  | _ => []

/-- The cases of an induction over expressions: `P` is shown of expressions, `I` of lists of them,
`H` of the pairs of a hash and `A` of arguments. -/
structure Cases (P : Expr → Prop) (I : List Expr → Prop) (H : List (Expr × Expr) → Prop)
    (A : List (Argument Expr) → Prop) : Prop where
  null : ∀ s, P (.null s)
  bool : ∀ s b, P (.bool s b)
  number : ∀ s x, P (.number s x)
  string : ∀ s text, P (.string s text)
  array : ∀ s items, I items → P (.array s items)
  hash : ∀ s pairs, H pairs → P (.hash s pairs)
  name : ∀ s n, P (.name s n)
  member : ∀ s receiver attr access arguments, P receiver → A arguments →
    P (.member s receiver attr access arguments)
  macroCall : ∀ s target n arguments, A arguments → P (.macroCall s target n arguments)
  function : ∀ s n arguments, A arguments → P (.function s n arguments)
  filter : ∀ s input n arguments, P input → A arguments → P (.filter s input n arguments)
  test : ∀ s input n arguments, P input → A input.functionArguments → A arguments →
    P (.test s input n arguments)
  lambda : ∀ s params body, P body → P (.lambda s params body)
  binary : ∀ s op left right, P left → P right → P (.binary s op left right)
  unary : ∀ s op operand, P operand → P (.unary s op operand)
  conditional : ∀ s condition yes no, P condition → P yes → P no →
    P (.conditional s condition yes no)
  items_nil : I []
  items_cons : ∀ e rest, P e → I rest → I (e :: rest)
  pairs_nil : H []
  pairs_cons : ∀ k v rest, P k → P v → H rest → H ((k, v) :: rest)
  arguments_nil : A []
  arguments_cons : ∀ n e rest, P e → A rest → A (⟨n, e⟩ :: rest)

namespace Cases

variable {P : Expr → Prop} {I : List Expr → Prop} {H : List (Expr × Expr) → Prop}
  {A : List (Argument Expr) → Prop}

/-- The cases show `P` of every expression. -/
theorem expr (h : Cases P I H A) (e : Expr) : P e := by
  -- the arguments of a function are carried along for the test around it
  have none_inside : ∀ e : Expr, e.functionArguments = [] → P e → P e ∧ A e.functionArguments := by
    intro e he hP
    refine ⟨hP, ?_⟩
    rw [he]
    exact h.arguments_nil
  have both : P e ∧ A e.functionArguments :=
    @Expr.rec (fun e => P e ∧ A e.functionArguments) I H A
      (fun p => P p.1 ∧ P p.2)
      (fun a => P a.value)
      (fun s => none_inside _ rfl (h.null s))
      (fun s b => none_inside _ rfl (h.bool s b))
      (fun s x => none_inside _ rfl (h.number s x))
      (fun s text => none_inside _ rfl (h.string s text))
      (fun s items ih => none_inside _ rfl (h.array s items ih))
      (fun s pairs ih => none_inside _ rfl (h.hash s pairs ih))
      (fun s n => none_inside _ rfl (h.name s n))
      (fun s receiver attr access arguments ihr iha =>
        none_inside _ rfl (h.member s receiver attr access arguments ihr.1 iha))
      (fun s target n arguments iha => none_inside _ rfl (h.macroCall s target n arguments iha))
      (fun s n arguments iha => ⟨h.function s n arguments iha, iha⟩)
      (fun s input n arguments ihi iha =>
        none_inside _ rfl (h.filter s input n arguments ihi.1 iha))
      (fun s input n arguments ihi iha =>
        none_inside _ rfl (h.test s input n arguments ihi.1 ihi.2 iha))
      (fun s params body ih => none_inside _ rfl (h.lambda s params body ih.1))
      (fun s op left right ihl ihr => none_inside _ rfl (h.binary s op left right ihl.1 ihr.1))
      (fun s op operand ih => none_inside _ rfl (h.unary s op operand ih.1))
      (fun s condition yes no ihc ihy ihn =>
        none_inside _ rfl (h.conditional s condition yes no ihc.1 ihy.1 ihn.1))
      h.items_nil
      (fun e rest ih ihs => h.items_cons e rest ih.1 ihs)
      h.pairs_nil
      (fun p rest ih ihs => h.pairs_cons p.1 p.2 rest ih.1 ih.2 ihs)
      h.arguments_nil
      (fun a rest ih ihs => h.arguments_cons a.name a.value rest ih ihs)
      (fun _ _ ihk ihv => ⟨ihk.1, ihv.1⟩)
      (fun _ _ ih => ih.1)
      e
  exact both.1

/-- The cases show `I` of all expressions in a row. -/
theorem items (h : Cases P I H A) (items : List Expr) : I items := by
  induction items with
  | nil => exact h.items_nil
  | cons e rest ih => exact h.items_cons e rest (h.expr e) ih

end Cases

/-- Induction over an expression, with the hypothesis for all expressions directly inside. -/
@[induction_eliminator]
theorem treeInduction {P : Expr → Prop}
    (null : ∀ s, P (.null s))
    (bool : ∀ s b, P (.bool s b))
    (number : ∀ s x, P (.number s x))
    (string : ∀ s text, P (.string s text))
    (array : ∀ s items, (∀ e ∈ items, P e) → P (.array s items))
    (hash : ∀ s pairs, (∀ p ∈ pairs, P p.1 ∧ P p.2) → P (.hash s pairs))
    (name : ∀ s n, P (.name s n))
    (member : ∀ s receiver attr access arguments, P receiver → (∀ a ∈ arguments, P a.value) →
      P (.member s receiver attr access arguments))
    (macroCall : ∀ s target n arguments, (∀ a ∈ arguments, P a.value) →
      P (.macroCall s target n arguments))
    (function : ∀ s n arguments, (∀ a ∈ arguments, P a.value) → P (.function s n arguments))
    (filter : ∀ s input n arguments, P input → (∀ a ∈ arguments, P a.value) →
      P (.filter s input n arguments))
    (test : ∀ s input n arguments, P input → (∀ a ∈ arguments, P a.value) →
      P (.test s input n arguments))
    (lambda : ∀ s params body, P body → P (.lambda s params body))
    (binary : ∀ s op left right, P left → P right → P (.binary s op left right))
    (unary : ∀ s op operand, P operand → P (.unary s op operand))
    (conditional : ∀ s condition yes no, P condition → P yes → P no →
      P (.conditional s condition yes no))
    (e : Expr) : P e := by
  have cases : Cases P (fun items => ∀ e ∈ items, P e) (fun pairs => ∀ p ∈ pairs, P p.1 ∧ P p.2)
      (fun arguments => ∀ a ∈ arguments, P a.value) :=
    { null, bool, number, string, array, hash, name, member, macroCall, function, filter, lambda,
      binary, unary, conditional
      test := fun s input n arguments hinput _ harguments =>
        test s input n arguments hinput harguments
      items_nil := fun _ h => absurd h List.not_mem_nil
      items_cons := fun _ _ he hrest => List.forall_mem_cons.mpr ⟨he, hrest⟩
      pairs_nil := fun _ h => absurd h List.not_mem_nil
      pairs_cons := fun _ _ _ hk hv hrest => List.forall_mem_cons.mpr ⟨⟨hk, hv⟩, hrest⟩
      arguments_nil := fun _ h => absurd h List.not_mem_nil
      arguments_cons := fun _ _ _ he hrest => List.forall_mem_cons.mpr ⟨he, hrest⟩ }
  exact cases.expr e

/-- How a test looks at its input.  A test `defined` passes by a name, and of a function it looks at
the arguments only.  Every other input, and the input of every other test, is looked at as a
whole. -/
theorem testCases {Q : Expr → String → Prop}
    (name : ∀ s x, Q (.name s x) "defined")
    (function : ∀ s f arguments, Q (.function s f arguments) "defined")
    (defined : ∀ input, (∀ s x, input ≠ .name s x) →
      (∀ s f arguments, input ≠ .function s f arguments) → Q input "defined")
    (other : ∀ input n, n ≠ "defined" → Q input n) (input : Expr) (n : String) : Q input n := by
  by_cases hn : n = "defined"
  · subst hn
    cases input with
    | name s x => exact name s x
    | function s f arguments => exact function s f arguments
    | _ => exact defined _ nofun nofun
  · exact other input n hn

end Expr

namespace Stmt

/-- The cases of an induction over statements: `P` is shown of statements, `B` of lists of them and
`R` of the branches of a condition. -/
structure Cases (P : Stmt → Prop) (B : List Stmt → Prop) (R : List (Branch Stmt) → Prop) :
    Prop where
  text : ∀ t s, P (.text t s)
  print : ∀ e s, P (.print e s)
  types : ∀ a, P (.types a)
  guarded : ∀ a guards, P (.guarded a guards)
  assign : ∀ names values s, P (.assign names values s)
  loop : ∀ key value source body orElse s, B body → B orElse →
    P (.loop key value source body orElse s)
  branch : ∀ branches orElse s, R branches → B orElse → P (.branch branches orElse s)
  macroDecl : ∀ name params body s, B body → P (.macroDecl name params body s)
  imports : ∀ i, P (.imports i)
  body_nil : B []
  body_cons : ∀ s rest, P s → B rest → B (s :: rest)
  branches_nil : R []
  branches_cons : ∀ condition body rest, B body → R rest → R (⟨condition, body⟩ :: rest)

namespace Cases

variable {P : Stmt → Prop} {B : List Stmt → Prop} {R : List (Branch Stmt) → Prop}

/-- The cases show `P` of every statement. -/
theorem stmt (h : Cases P B R) (s : Stmt) : P s :=
  @Stmt.rec P B R (fun b => B b.body)
    h.text h.print h.types h.guarded h.assign h.loop h.branch h.macroDecl h.imports
    h.body_nil h.body_cons h.branches_nil
    (fun b rest ih ihs => h.branches_cons b.condition b.body rest ih ihs)
    (fun _ _ ih => ih)
    s

/-- The cases show `B` of all statements in a row. -/
theorem body (h : Cases P B R) (body : List Stmt) : B body := by
  induction body with
  | nil => exact h.body_nil
  | cons s rest ih => exact h.body_cons s rest (h.stmt s) ih

/-- The cases show `R` of all branches. -/
theorem branches (h : Cases P B R) (branches : List (Branch Stmt)) : R branches := by
  induction branches with
  | nil => exact h.branches_nil
  | cons b rest ih => exact h.branches_cons b.condition b.body rest (h.body b.body) ih

end Cases

/-- Induction over a statement, with the hypothesis for all statements directly inside. -/
@[induction_eliminator]
theorem treeInduction {P : Stmt → Prop}
    (text : ∀ t s, P (.text t s))
    (print : ∀ e s, P (.print e s))
    (types : ∀ a, P (.types a))
    (guarded : ∀ a guards, P (.guarded a guards))
    (assign : ∀ names values s, P (.assign names values s))
    (loop : ∀ key value source body orElse s, (∀ t ∈ body, P t) → (∀ t ∈ orElse, P t) →
      P (.loop key value source body orElse s))
    (branch : ∀ branches orElse s, (∀ b ∈ branches, ∀ t ∈ b.body, P t) → (∀ t ∈ orElse, P t) →
      P (.branch branches orElse s))
    (macroDecl : ∀ name params body s, (∀ t ∈ body, P t) → P (.macroDecl name params body s))
    (imports : ∀ i, P (.imports i))
    (s : Stmt) : P s := by
  have cases : Cases P (fun body => ∀ t ∈ body, P t)
      (fun branches => ∀ b ∈ branches, ∀ t ∈ b.body, P t) :=
    { text, print, types, guarded, assign, loop, branch, macroDecl, imports
      body_nil := fun _ h => absurd h List.not_mem_nil
      body_cons := fun _ _ hs hrest => List.forall_mem_cons.mpr ⟨hs, hrest⟩
      branches_nil := fun _ h => absurd h List.not_mem_nil
      branches_cons := fun _ _ _ hbody hrest => List.forall_mem_cons.mpr ⟨hbody, hrest⟩ }
  exact cases.stmt s

/-! ### Statements at any depth -/

mutual

/-- A statement and all statements inside it, in the order of reading. -/
def substmts : Stmt → List Stmt
  | loop key value source body orElse s =>
    loop key value source body orElse s :: (bodySubstmts body ++ bodySubstmts orElse)
  | branch branches orElse s =>
    branch branches orElse s :: (branchesSubstmts branches ++ bodySubstmts orElse)
  | macroDecl name params body s => macroDecl name params body s :: bodySubstmts body
  | s => [s]

/-- The statements of a list and all statements inside them. -/
def bodySubstmts : List Stmt → List Stmt
  | [] => []
  | s :: rest => substmts s ++ bodySubstmts rest

/-- The statements of branches and all statements inside them. -/
def branchesSubstmts : List (Branch Stmt) → List Stmt
  | [] => []
  | ⟨_, body⟩ :: rest => bodySubstmts body ++ branchesSubstmts rest

end

end Stmt

end TemplateContracts
