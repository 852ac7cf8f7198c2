import TemplateContracts.Analysis.Walk
import TemplateContracts.Proofs.Environment
import TemplateContracts.Proofs.Induction

/-!
# The walk over a map

The walk over a template threads a stack of entries for each name.  This file defines the walk again
over a `Scope`, an immutable map from names to types.

* `Site.isImplicit_iff`, `Site.mem_loopTargets_iff` : the names that need no declaration inside of a
  macro, and those that a loop binds;
* `Stmt.assigned` : the names that a statement declares for good, at any depth outside of macro
  bodies;
* `Stmt.scopeAfter` : the map behind a statement.  Behind a loop, the names declared in its body
  keep their types and every other name has the type it had before;
* `Site.exprFindings`, `Site.stmtFindings` : the findings under a map.  Expressions only read it;
* `Stmt.declares_scopeAfter` : a statement declares exactly its assigned names, with types that do
  not depend on the map before it.

That both walks report the same findings is proved in `Proofs.ScopeRefinement`.
-/

namespace TemplateContracts

/-- The type that a declaration gives to its variable; `mixed` if it cannot be read. -/
def TypeDecl.type (d : TypeDecl) : TypeExpr :=
  (TypeParser.ofText d.typeText).parse.1.toOption.getD .mixed

/-- The map after declarations in order. -/
def Scope.declareTypes (m : Scope) (ds : List TypeDecl) : Scope :=
  ds.foldl (fun m d => m.bind d.name.name d.type) m

/-! ### Names that are bound without a declaration -/

namespace Site

/-- Inside of every macro there are the global variables, the surplus arguments, the template
itself, and what the engine declares for its own use. -/
theorem isImplicit_iff (c : Site) (name : String) :
    c.isImplicit name = true ↔
      name ∈ c.config.globals ∨ name = "varargs" ∨ name = "_self" ∨
        ∃ rest, name = "__internal" ++ rest := by
  have hinternal : "__internal".toList.isPrefixOf name.toList = true ↔
      ∃ rest, name = "__internal" ++ rest := by
    rw [List.isPrefixOf_iff_prefix]
    constructor
    · rintro ⟨rest, hrest⟩
      refine ⟨String.ofList rest, String.toList_inj.mp ?_⟩
      rw [String.toList_append, ← hrest]
      exact congrArg _ String.toList_ofList.symm
    · rintro ⟨rest, rfl⟩
      rw [String.toList_append]
      exact List.prefix_append _ _
  rw [isImplicit, Bool.or_eq_true, Bool.or_eq_true, Bool.or_eq_true, Config.isGlobal,
    List.contains_iff_mem, beq_iff_eq, beq_iff_eq, hinternal, or_assoc, or_assoc]
  rfl

/-- A loop binds `loop`, its value, and its key, which is `_key` if the loop gives it no name. -/
theorem mem_loopTargets_iff (key : Option Ident) (value : Ident) (name : String) :
    name ∈ loopTargets key value ↔
      name = "loop" ∨ name = value.name ∨ (key = none ∧ name = "_key") ∨
        ∃ k, key = some k ∧ name = k.name := by
  cases key with
  | none => simp [loopTargets, or_comm]
  | some k => simp [loopTargets, or_comm]

end Site

/-! ### The map behind a statement -/

namespace Stmt

mutual

/-- The names that a statement declares for good, at any depth outside of macro bodies. -/
def assigned : Stmt → List String
  | types a => a.mapping.map (·.name.name)
  | guarded a _ => a.mapping.map (·.name.name)
  | assign names _ _ => names.map (·.name)
  | loop _ _ _ body orElse _ => bodyAssigned body ++ bodyAssigned orElse
  | branch branches orElse _ => branchesAssigned branches ++ bodyAssigned orElse
  | text _ _ | print _ _ | macroDecl _ _ _ _ | imports _ => []

/-- The names that statements declare for good. -/
def bodyAssigned : List Stmt → List String
  | [] => []
  | s :: rest => assigned s ++ bodyAssigned rest

/-- The names that branches declare for good. -/
def branchesAssigned : List (Branch Stmt) → List String
  | [] => []
  | ⟨_, body⟩ :: rest => bodyAssigned body ++ branchesAssigned rest

end

mutual

/-- The map behind a statement, from the map before it. -/
def scopeAfter : Stmt → Scope → Scope
  | types a, m => m.declareTypes a.mapping
  | guarded a _, m => m.declareTypes a.mapping
  | assign names _ _, m => m.bindAll (names.map (·.name))
  | loop key value _ body orElse _, m =>
    let inBody := m.bindAll (Site.loopTargets key value)
    bodyScopeAfter orElse (m.takeFrom (bodyAssigned body) (bodyScopeAfter body inBody))
  | branch branches orElse _, m => bodyScopeAfter orElse (branchesScopeAfter branches m)
  | text _ _, m | print _ _, m | macroDecl _ _ _ _, m | imports _, m => m

/-- The map behind statements. -/
def bodyScopeAfter : List Stmt → Scope → Scope
  | [], m => m
  | s :: rest, m => bodyScopeAfter rest (scopeAfter s m)

/-- The map behind branches: each starts from the map behind the one before. -/
def branchesScopeAfter : List (Branch Stmt) → Scope → Scope
  | [], m => m
  | ⟨_, body⟩ :: rest, m => branchesScopeAfter rest (bodyScopeAfter body m)

end

end Stmt

/-! ### Findings under a map -/

namespace Site

/-- Findings, if an inspection is enabled. -/
def gated (c : Site) (i : Inspection) (ds : List Diagnostic) : List Diagnostic :=
  if c.config.isEnabled i then ds else []

/-- The findings of a name. -/
def nameFindings (c : Site) (inside : Option String) (name : String) (s : Span) (m : Scope) :
    List Diagnostic :=
  match inside with
  | none => []
  | some macroName =>
    if (m name).isSome || c.isImplicit name then []
    else c.gated .undeclaredVariableInMacro [c.undeclared macroName name s]

/-- The findings of an attribute access itself. -/
def accessFindings (c : Site) (receiver : Expr) (attr : String) (access : AccessKind) (s : Span)
    (m : Scope) : List Diagnostic :=
  c.gated .invalidEnumCase
    (((enumTarget? receiver).bind fun e => c.classes.enumCaseError? e attr).map
      (c.refused .invalidEnumCase s)).toList ++
  c.gated .invalidDotOperation
    (((receiver.asName?.bind m).bind fun t => c.classes.accessError? t attr access).map
      (c.refused .invalidAttributeAccess s)).toList

/-- The findings of a macro call itself. -/
def callFindings (c : Site) (target : MacroTarget) (name : String)
    (arguments : List (Argument Expr)) (s : Span) : List Diagnostic :=
  Event.findings (c.checkCall target name arguments s)

/-- The findings of a function or test itself. -/
def namedFindings (c : Site) (name : String) (arguments : List (Argument Expr)) (s : Span) :
    List Diagnostic :=
  Event.findings (c.checkNamed name arguments s)

/-- The findings of the types of a `types` statement. -/
def typesFindings (c : Site) (a : Contract) : List Diagnostic :=
  a.mapping.flatMap fun d => c.gated .invalidTypes
    (Event.findings (c.declarationEvents (c.place a.span) d (TypeParser.ofText d.typeText).parse))

/-- The findings of the signature of a macro. -/
def signatureFindings (c : Site) (name : String) (params : List MacroParam) (body : List Stmt)
    (s : Span) : List Diagnostic :=
  Event.findings (c.checkSignature name params body s)

mutual

/-- The findings of an expression under a map, inside the macro of the given name or outside of
macros. -/
def exprFindings (c : Site) (inside : Option String) : Expr → Scope → List Diagnostic
  | .null _, _ | .bool _ _, _ | .number _ _, _ | .string _ _, _ => []
  | .array _ items, m => exprsFindings c inside items m
  | .hash _ pairs, m => pairsFindings c inside pairs m
  | .name s n, m => c.nameFindings inside n s m
  | .member s receiver attr access arguments, m =>
    c.accessFindings receiver attr access s m ++ exprFindings c inside receiver m ++
      argumentsFindings c inside arguments m
  | .macroCall s target n arguments, m =>
    c.callFindings target n arguments s ++ argumentsFindings c inside arguments m
  | .function s n arguments, m =>
    c.namedFindings n arguments s ++ argumentsFindings c inside arguments m
  | .filter _ input _ arguments, m =>
    exprFindings c inside input m ++ argumentsFindings c inside arguments m
  | .test s input n arguments, m =>
    if n = "defined" then
      -- a name is passed over, and of a function only the arguments count
      match input with
      | .name _ _ => argumentsFindings c inside arguments m
      | .function _ _ inner =>
        argumentsFindings c inside inner m ++ argumentsFindings c inside arguments m
      | input => exprFindings c inside input m ++ argumentsFindings c inside arguments m
    else
      exprFindings c inside input m ++ c.namedFindings n arguments s ++
        argumentsFindings c inside arguments m
  | .lambda _ params body, m => exprFindings c inside body (m.bindAll (params.map (·.name)))
  | .binary _ _ left right, m => exprFindings c inside left m ++ exprFindings c inside right m
  | .unary _ _ operand, m => exprFindings c inside operand m
  | .conditional _ condition yes no, m =>
    exprFindings c inside condition m ++ exprFindings c inside yes m ++ exprFindings c inside no m

/-- The findings of expressions in order. -/
def exprsFindings (c : Site) (inside : Option String) : List Expr → Scope → List Diagnostic
  | [], _ => []
  | e :: rest, m => exprFindings c inside e m ++ exprsFindings c inside rest m

/-- The findings of the pairs of a hash. -/
def pairsFindings (c : Site) (inside : Option String) :
    List (Expr × Expr) → Scope → List Diagnostic
  | [], _ => []
  | (k, v) :: rest, m =>
    exprFindings c inside k m ++ exprFindings c inside v m ++ pairsFindings c inside rest m

/-- The findings of arguments in order. -/
def argumentsFindings (c : Site) (inside : Option String) :
    List (Argument Expr) → Scope → List Diagnostic
  | [], _ => []
  | ⟨_, e⟩ :: rest, m => exprFindings c inside e m ++ argumentsFindings c inside rest m

end

mutual

/-- The findings of a statement under the map before it. -/
def stmtFindings (c : Site) (inside : Option String) : Stmt → Scope → List Diagnostic
  | .text _ _, _ => []
  | .print e _, m => c.exprFindings inside e m
  | .types a, _ => c.typesFindings a
  | .guarded a _, _ => c.typesFindings a
  | .assign names values _, m => c.exprsFindings inside values (m.bindNew (names.map (·.name)))
  | .loop key value source body orElse _, m =>
    let inBody := m.bindAll (loopTargets key value)
    c.exprFindings inside source m ++ bodyFindings c inside body inBody ++
      bodyFindings c inside orElse
        (m.takeFrom (Stmt.bodyAssigned body) (Stmt.bodyScopeAfter body inBody))
  | .branch branches orElse _, m =>
    branchesFindings c inside branches m ++
      bodyFindings c inside orElse (Stmt.branchesScopeAfter branches m)
  | .macroDecl name params body s, m =>
    -- the body sees its parameters and nothing of the map
    c.signatureFindings name.name params body s ++
      c.exprsFindings inside (MacroParam.defaults params) m ++
      bodyFindings c (some name.name) body (Scope.empty.bindAll (params.map (·.name.name)))
  | .imports i, m => c.exprFindings inside i.template m

/-- The findings of statements in order, each under the map behind those before it. -/
def bodyFindings (c : Site) (inside : Option String) : List Stmt → Scope → List Diagnostic
  | [], _ => []
  | s :: rest, m => stmtFindings c inside s m ++ bodyFindings c inside rest (s.scopeAfter m)

/-- The findings of branches in order, each condition before its statements. -/
def branchesFindings (c : Site) (inside : Option String) :
    List (Branch Stmt) → Scope → List Diagnostic
  | [], _ => []
  | ⟨condition, body⟩ :: rest, m =>
    c.exprFindings inside condition m ++ bodyFindings c inside body m ++
      branchesFindings c inside rest (Stmt.bodyScopeAfter body m)

end

end Site

/-! ### What a test looks at -/

namespace Site

variable (c : Site) (inside : Option String) (s : Span) {n : String} {input : Expr}
  (arguments : List (Argument Expr))

/-- A name may be undeclared if it is tested for being defined. -/
theorem checkExpr_test_name (sp : Span) (x : String) :
    c.checkExpr inside (.test s (.name sp x) "defined" arguments)
      = c.checkArguments inside arguments := by
  rw [checkExpr, if_pos rfl]

/-- A constant may be missing if it is tested for being defined. -/
theorem checkExpr_test_function (sp : Span) (f : String) (inner : List (Argument Expr)) :
    c.checkExpr inside (.test s (.function sp f inner) "defined" arguments)
      = .all [c.checkArguments inside inner, c.checkArguments inside arguments] := by
  rw [checkExpr, if_pos rfl]

theorem checkExpr_test_defined (hname : ∀ s x, input ≠ .name s x)
    (hfunction : ∀ s f arguments, input ≠ .function s f arguments) :
    c.checkExpr inside (.test s input "defined" arguments)
      = .all [c.checkExpr inside input, c.checkArguments inside arguments] := by
  rw [checkExpr, if_pos rfl]
  · exact hname
  · exact hfunction

theorem checkExpr_test_other (hn : n ≠ "defined") :
    c.checkExpr inside (.test s input n arguments)
      = .all [c.checkExpr inside input, .emit (c.checkNamed n arguments s),
        c.checkArguments inside arguments] := by
  cases input <;> simp only [checkExpr, if_neg hn]

theorem exprFindings_test_name (sp : Span) (x : String) :
    c.exprFindings inside (.test s (.name sp x) "defined" arguments)
      = c.argumentsFindings inside arguments := by
  funext m
  rw [exprFindings, if_pos rfl]

theorem exprFindings_test_function (sp : Span) (f : String) (inner : List (Argument Expr)) :
    c.exprFindings inside (.test s (.function sp f inner) "defined" arguments)
      = fun m => c.argumentsFindings inside inner m ++ c.argumentsFindings inside arguments m := by
  funext m
  rw [exprFindings, if_pos rfl]

theorem exprFindings_test_defined (hname : ∀ s x, input ≠ .name s x)
    (hfunction : ∀ s f arguments, input ≠ .function s f arguments) :
    c.exprFindings inside (.test s input "defined" arguments)
      = fun m => c.exprFindings inside input m ++ c.argumentsFindings inside arguments m := by
  funext m
  rw [exprFindings, if_pos rfl]
  · exact hname
  · exact hfunction

theorem exprFindings_test_other (hn : n ≠ "defined") :
    c.exprFindings inside (.test s input n arguments)
      = fun m => c.exprFindings inside input m ++ c.namedFindings n arguments s ++
        c.argumentsFindings inside arguments m := by
  funext m
  cases input <;> simp only [exprFindings, if_neg hn]

end Site

/-! ### What a statement adds to a map -/

/-- `after` declares exactly the given names, with types that do not depend on the map before. -/
structure Scope.Declares (names : List String) (after : Scope → Scope) : Prop where
  eq_atop : ∀ m, after m = (after .empty).atop m
  isSome_iff : ∀ n, (after .empty n).isSome = names.contains n

namespace Scope.Declares

theorem nothing : Declares [] fun m => m :=
  ⟨fun _ => rfl, fun _ => rfl⟩

theorem comp {names names' : List String} {f g : Scope → Scope} (hf : Declares names f)
    (hg : Declares names' g) : Declares (names ++ names') fun m => g (f m) := by
  refine ⟨fun m => ?_, fun n => ?_⟩
  · rw [hg.eq_atop (f m), hg.eq_atop (f .empty), hf.eq_atop m, atop_atop]
  · rw [hg.eq_atop, isSome_atop, hg.isSome_iff, hf.isSome_iff, List.contains_append, Bool.or_comm]

theorem bindAll (names : List String) : Declares names (·.bindAll names) :=
  ⟨fun m => m.bindAll_eq_atop names, fun n => by rw [isSome_bindAll]; exact Bool.or_false _⟩

theorem bind (name : String) (t : TypeExpr) : Declares [name] (·.bind name t) := by
  refine ⟨fun m => m.bind_eq_atop name t, fun n => ?_⟩
  by_cases h : n = name <;> simp [Scope.bind, empty, h]

theorem declareTypes (ds : List TypeDecl) :
    Declares (ds.map (·.name.name)) (·.declareTypes ds) := by
  induction ds with
  | nil => exact nothing
  | cons d rest ih => exact (bind d.name.name d.type).comp ih

/-- Behind a body, the names declared in it have their types from it, and the others from before. -/
theorem takeFrom_eq_atop {names : List String} {f : Scope → Scope} (h : Declares names f)
    (m m' : Scope) : m.takeFrom names (f m') = (f .empty).atop m := by
  funext n
  have hn := h.isSome_iff n
  rw [h.eq_atop m']
  cases hd : f .empty n with
  | none =>
    have hmem : n ∉ names := by simpa [hd] using hn
    simp [takeFrom, atop, hmem, hd]
  | some t =>
    have hmem : n ∈ names := by simpa [hd] using hn
    simp [takeFrom, atop, hmem, hd]

theorem takeFrom {names : List String} {f : Scope → Scope} (h : Declares names f)
    (g : Scope → Scope) : Declares names fun m => m.takeFrom names (f (g m)) := by
  refine ⟨fun m => ?_, fun n => ?_⟩
  · rw [h.takeFrom_eq_atop, h.takeFrom_eq_atop, atop_empty]
  · rw [h.takeFrom_eq_atop, atop_empty, h.isSome_iff]

end Scope.Declares

namespace Stmt

/-- A statement declares its assigned names and no others, and so do lists of statements and
branches. -/
theorem declares_cases : Cases (fun s => Scope.Declares s.assigned s.scopeAfter)
    (fun body => Scope.Declares (bodyAssigned body) (bodyScopeAfter body))
    (fun branches => Scope.Declares (branchesAssigned branches) (branchesScopeAfter branches)) where
  text _ _ := .nothing
  print _ _ := .nothing
  types a := .declareTypes a.mapping
  guarded a _ := .declareTypes a.mapping
  assign _ _ _ := .bindAll _
  loop key value _ _ _ _ hbody helse :=
    (hbody.takeFrom (·.bindAll (Site.loopTargets key value))).comp helse
  branch _ _ _ hbranches helse := hbranches.comp helse
  macroDecl _ _ _ _ _ := .nothing
  imports _ := .nothing
  body_nil := .nothing
  body_cons _ _ hs hrest := hs.comp hrest
  branches_nil := .nothing
  branches_cons _ _ _ hbody hrest := hbody.comp hrest

theorem declares_scopeAfter (s : Stmt) : Scope.Declares s.assigned s.scopeAfter :=
  declares_cases.stmt s

theorem declares_bodyScopeAfter (body : List Stmt) :
    Scope.Declares (bodyAssigned body) (bodyScopeAfter body) :=
  declares_cases.body body

theorem declares_branchesScopeAfter (branches : List (Branch Stmt)) :
    Scope.Declares (branchesAssigned branches) (branchesScopeAfter branches) :=
  declares_cases.branches branches

end Stmt

end TemplateContracts
