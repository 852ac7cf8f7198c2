import TemplateContracts.Proofs.ImportRecursion
import TemplateContracts.Proofs.ImportedNames

/-!
# Registries that no call tells apart

A table of macros is looked at through its names only.  So a run cannot tell two registries apart if
every call resolves to the same in both, nor what it remembers of its imports if the tables that it
remembers answer alike.

* `Registry.Alike` : every call resolves alike.  Binding what an import binds keeps registries alike
  if the tables of the import answer alike;
* `ImportCache.Alike` : the same names are remembered, with tables that answer alike;
* `Site.checkBody_withRegistry` : the walk is the same with a registry that is alike;
* `Analyzer.Resolves.alike` : **following imports logs the same from states that are alike**, and
  ends in states that are alike.
-/

namespace TemplateContracts

/-! ### Registries -/

namespace Registry

variable {r r' : Registry}

/-- Every call resolves to the same in both registries. -/
def Alike (r r' : Registry) : Prop :=
  ∀ target n, r'.resolve target n = r.resolve target n

theorem Alike.refl (r : Registry) : r.Alike r := fun _ _ => rfl

theorem resolveIn_congr {table table' : MacroTable} (h : table'.get? = table.get?) (n : String) :
    resolveIn table' n = resolveIn table n := by
  unfold resolveIn
  rw [h]

/-- A template can call each of its own macros, so these are alike. -/
theorem Alike.own_get?_eq (h : r.Alike r') : r'.own.get? = r.own.get? := by
  funext n
  have hown : resolveIn r'.own n = resolveIn r.own n := h .own n
  unfold resolveIn at hown
  generalize r'.own.get? n = found' at hown ⊢
  generalize r.own.get? n = found at hown ⊢
  cases found <;> cases found' <;> cases hown <;> rfl

theorem resolve_imported_of_own {s : Signature} {n : String} (h : r.own.get? n = some s) :
    r.resolve .imported n = .resolved s := by
  unfold resolve
  rw [h]

/-- Two templates before their imports. -/
theorem alike_of_own {table table' : MacroTable} (h : table'.get? = table.get?) :
    Alike { own := table } { own := table' } := by
  intro target n
  cases target with
  | own => exact resolveIn_congr h n
  | inNamespace localName => rfl
  | imported =>
    unfold resolve
    rw [h]

theorem Alike.importMacro (h : r.Alike r') (localName : String) (m : Imported Signature) :
    (r.importMacro localName m).Alike (r'.importMacro localName m) := by
  intro target n
  cases target with
  | own => exact h .own n
  | inNamespace other => exact h (.inNamespace other) n
  | imported =>
    have hown' : r'.own.get? n = r.own.get? n := congrFun h.own_get?_eq n
    cases hown : r.own.get? n with
    | some s =>
      rw [hown] at hown'
      rw [resolve_imported_of_own (r := r'.importMacro localName m) hown',
        resolve_imported_of_own (r := r.importMacro localName m) hown]
    | none =>
      rw [hown] at hown'
      have hbefore := h .imported n
      rw [r'.resolve_imported hown', r.resolve_imported hown] at hbefore
      rw [(r'.importMacro localName m).resolve_imported hown',
        (r.importMacro localName m).resolve_imported hown]
      show Resolution.ofBinding ((r'.imported.set localName m).get? n)
        = .ofBinding ((r.imported.set localName m).get? n)
      rw [Assoc.get?_set, Assoc.get?_set]
      split
      · rfl
      · exact hbefore

theorem Alike.importNamespace (h : r.Alike r') (localName : String)
    {table table' : Option MacroTable} (ht : table'.map Assoc.get? = table.map Assoc.get?) :
    (r.importNamespace localName (.ofOption table)).Alike
      (r'.importNamespace localName (.ofOption table')) := by
  intro target n
  cases target with
  | own => exact h .own n
  | imported => exact h .imported n
  | inNamespace other =>
    have hbefore := h (.inNamespace other) n
    unfold resolve at hbefore ⊢
    simp only [Registry.importNamespace, Assoc.get?_set]
    by_cases hn : other = localName
    · rw [if_pos hn, if_pos hn]
      cases table with
      | none =>
        rw [Option.map_eq_none_iff.mp ht]
      | some table =>
        obtain ⟨table', rfl, hget⟩ := Option.map_eq_some_iff.mp ht
        exact resolveIn_congr hget n
    · rw [if_neg hn, if_neg hn]
      exact hbefore

/-- Imports keep registries alike. -/
theorem Alike.bind (h : r.Alike r') (kind : ImportKind) {table table' : Option MacroTable}
    (ht : table'.map Assoc.get? = table.map Assoc.get?) :
    (r.bind kind table).Alike (r'.bind kind table') := by
  cases kind with
  | whole localName => exact h.importNamespace localName.name ht
  | names list =>
    unfold Registry.bind
    dsimp only
    induction list generalizing r r' with
    | nil => exact h
    | cons i rest ih =>
      rw [List.foldl_cons, List.foldl_cons]
      apply ih
      cases table with
      | none =>
        rw [Option.map_eq_none_iff.mp ht]
        exact h.importMacro i.localName .hidden
      | some table =>
        obtain ⟨table', rfl, hget⟩ := Option.map_eq_some_iff.mp ht
        dsimp only
        rw [hget]
        cases table.get? i.name.name with
        | none => exact h
        | some s => exact h.importMacro i.localName (.known s)

/-- Imports of one template. -/
theorem Alike.bind_same (h : r.Alike r') (kind : ImportKind) (table : Option MacroTable) :
    (r.bind kind table).Alike (r'.bind kind table) :=
  h.bind kind rfl

end Registry

/-! ### What is remembered -/

namespace ImportCache

/-- The same is remembered, with tables that answer alike. -/
structure Alike (c c' : ImportCache) : Prop where
  exports_eq : ∀ k, (c'.exports.get? k).map Assoc.get? = (c.exports.get? k).map Assoc.get?
  failures_eq : c'.failures = c.failures
  inFlight_eq : c'.inFlight = c.inFlight

namespace Alike

variable {c c' : ImportCache} {k : String}

theorem refl (c : ImportCache) : c.Alike c := ⟨fun _ => rfl, rfl, rfl⟩

theorem publish (h : c.Alike c') (k : String) {table table' : MacroTable}
    (ht : table'.get? = table.get?) : (c.publish k table).Alike (c'.publish k table') := by
  refine ⟨fun other => ?_, h.failures_eq, h.inFlight_eq⟩
  show ((c'.exports.setIfNew k table').get? other).map Assoc.get?
    = ((c.exports.setIfNew k table).get? other).map Assoc.get?
  rw [Assoc.get?_setIfNew, Assoc.get?_setIfNew]
  have hk := h.exports_eq k
  split
  · -- the first table of a name counts, and both have one or neither has
    cases hc : c.exports.get? k with
    | none =>
      rw [hc] at hk
      rw [Option.map_eq_none_iff.mp hk, Option.getD_none, Option.getD_none, Option.map_some,
        Option.map_some, ht]
    | some first =>
      rw [hc] at hk
      obtain ⟨first', hc', hget⟩ := Option.map_eq_some_iff.mp hk
      rw [hc', Option.getD_some, Option.getD_some, Option.map_some, Option.map_some, hget]
  · exact h.exports_eq other

theorem recordFailure (h : c.Alike c') (k : String) (e : LoadError) :
    (c.recordFailure k e).Alike (c'.recordFailure k e) := by
  refine ⟨h.exports_eq, ?_, h.inFlight_eq⟩
  show c'.failures.set k e = c.failures.set k e
  rw [h.failures_eq]

theorem start (h : c.Alike c') (k : String) : (c.start k).Alike (c'.start k) := by
  refine ⟨h.exports_eq, h.failures_eq, ?_⟩
  show c'.inFlight ++ [k] = c.inFlight ++ [k]
  rw [h.inFlight_eq]

theorem finish (h : c.Alike c') (k : String) : (c.finish k).Alike (c'.finish k) := by
  refine ⟨h.exports_eq, h.failures_eq, ?_⟩
  show eraseLast c'.inFlight k = eraseLast c.inFlight k
  rw [h.inFlight_eq]

theorem isInFlight_eq (h : c.Alike c') (k : String) : c'.isInFlight k = c.isInFlight k := by
  rw [isInFlight, isInFlight, h.inFlight_eq]

theorem get_of_ready (h : c.Alike c') {table : MacroTable} (hget : c.get k = .ready table) :
    ∃ table', c'.get k = .ready table' ∧ table'.get? = table.get? := by
  have hk := h.exports_eq k
  unfold get at hget ⊢
  cases hc : c.exports.get? k with
  | none =>
    rw [hc] at hget
    cases hf : c.failures.get? k <;> simp [hf] at hget
  | some first =>
    rw [hc] at hget hk
    obtain ⟨first', hc', hview⟩ := Option.map_eq_some_iff.mp hk
    cases hget
    exact ⟨first', by rw [hc'], hview⟩

/-- Without a table, nothing depends on which of the two is looked at. -/
theorem get_of_not_ready (h : c.Alike c') {found : Cached} (hget : c.get k = found)
    (hfound : ∀ table, found ≠ .ready table) : c'.get k = found := by
  have hk := h.exports_eq k
  subst hget
  unfold get at hfound ⊢
  cases hc : c.exports.get? k with
  | none =>
    rw [hc] at hk
    rw [Option.map_eq_none_iff.mp hk, h.failures_eq]
  | some first =>
    rw [hc] at hfound
    exact absurd rfl (hfound first)

end Alike

end ImportCache

/-! ### The walk -/

namespace Site

/-- A site with another registry. -/
def withRegistry (c : Site) (r : Registry) : Site := { c with registry := r }

section

variable {c : Site} {r : Registry} (h : c.registry.Alike r)
include h

/-- Calls are the only place where the walk looks at the registry. -/
theorem checkCall_withRegistry (target : MacroTarget) (n : String)
    (arguments : List (Argument Expr)) (s : Span) :
    (c.withRegistry r).checkCall target n arguments s = c.checkCall target n arguments s := by
  unfold checkCall
  rw [show (c.withRegistry r).registry.resolve target n = c.registry.resolve target n from
    h target n]
  rfl

theorem withRegistry_exprCases (inside : Option String) : Expr.Cases
    (fun e => (c.withRegistry r).checkExpr inside e = c.checkExpr inside e)
    (fun items => (c.withRegistry r).checkExprs inside items = c.checkExprs inside items)
    (fun pairs => (c.withRegistry r).checkPairs inside pairs = c.checkPairs inside pairs)
    (fun arguments => (c.withRegistry r).checkArguments inside arguments
      = c.checkArguments inside arguments) where
  null _ := rfl
  bool _ _ := rfl
  number _ _ := rfl
  string _ _ := rfl
  array _ _ hitems := by rw [checkExpr, checkExpr, hitems]
  hash _ _ hpairs := by rw [checkExpr, checkExpr, hpairs]
  name _ _ := rfl
  member _ _ _ _ _ hreceiver harguments := by
    rw [checkExpr, checkExpr, hreceiver, harguments]
    rfl
  macroCall _ _ _ _ harguments := by
    rw [checkExpr, checkExpr, checkCall_withRegistry h, harguments]
  function _ _ _ harguments := by
    rw [checkExpr, checkExpr, harguments]
    rfl
  filter _ _ _ _ hinput harguments := by rw [checkExpr, checkExpr, hinput, harguments]
  test s input n arguments hinput hinner harguments := by
    cases input, n using Expr.testCases with
    | name sp x => rw [checkExpr_test_name, checkExpr_test_name, harguments]
    | function sp f inner =>
      rw [Expr.functionArguments] at hinner
      rw [checkExpr_test_function, checkExpr_test_function, hinner, harguments]
    | defined input hname hfunction =>
      rw [checkExpr_test_defined _ _ _ _ hname hfunction,
        checkExpr_test_defined _ _ _ _ hname hfunction, hinput, harguments]
    | other input n hn =>
      rw [checkExpr_test_other _ _ _ _ hn, checkExpr_test_other _ _ _ _ hn, hinput, harguments]
      rfl
  lambda _ _ _ hbody := by rw [checkExpr, checkExpr, hbody]
  binary _ _ _ _ hleft hright := by rw [checkExpr, checkExpr, hleft, hright]
  unary _ _ _ hoperand := by rw [checkExpr, checkExpr, hoperand]
  conditional _ _ _ _ hcondition hyes hno := by
    rw [checkExpr, checkExpr, hcondition, hyes, hno]
  items_nil := rfl
  items_cons _ _ he hrest := by rw [checkExprs, checkExprs, he, hrest]
  pairs_nil := rfl
  pairs_cons _ _ _ hk hv hrest := by rw [checkPairs, checkPairs, hk, hv, hrest]
  arguments_nil := rfl
  arguments_cons _ _ _ he hrest := by rw [checkArguments, checkArguments, he, hrest]

theorem withRegistry_stmtCases : Stmt.Cases
    (fun s => ∀ inside, (c.withRegistry r).checkStmt inside s = c.checkStmt inside s)
    (fun body => ∀ inside, (c.withRegistry r).checkBody inside body = c.checkBody inside body)
    (fun branches => ∀ inside, (c.withRegistry r).checkBranches inside branches
      = c.checkBranches inside branches) where
  text _ _ _ := rfl
  print e _ inside := (withRegistry_exprCases h inside).expr e
  types _ _ := rfl
  guarded _ _ _ := rfl
  assign _ values _ inside := by
    rw [checkStmt, checkStmt, (withRegistry_exprCases h inside).items]
  loop _ _ source _ _ _ hbody helse inside := by
    rw [checkStmt, checkStmt, (withRegistry_exprCases h inside).expr source, hbody, helse]
  branch _ _ _ hbranches helse inside := by rw [checkStmt, checkStmt, hbranches, helse]
  macroDecl _ _ _ _ hbody inside := by
    rw [checkStmt, checkStmt, (withRegistry_exprCases h inside).items, hbody]
    rfl
  imports i inside := (withRegistry_exprCases h inside).expr i.template
  body_nil _ := rfl
  body_cons _ _ hs hrest inside := by rw [checkBody, checkBody, hs, hrest]
  branches_nil _ := rfl
  branches_cons condition _ _ hbody hrest inside := by
    rw [checkBranches, checkBranches, (withRegistry_exprCases h inside).expr condition, hbody,
      hrest]

/-- **The walk looks at calls only.**  With a registry that is alike it is the same. -/
theorem checkBody_withRegistry (inside : Option String) (body : List Stmt) :
    (c.withRegistry r).checkBody inside body = c.checkBody inside body :=
  (withRegistry_stmtCases h).body body inside

end

end Site

/-! ### Following imports -/

namespace Analyzer

variable {a : Analyzer} {path : String} {is : List Import}
  {registry registry' registry₁ : Registry} {cache cache' cache₁ : ImportCache} {log : List Event}

/-- A visit logs the same with a registry that is alike. -/
theorem visitLog_alike (h : registry.Alike registry') (a : Analyzer) (name : String) (t : Template)
    (log : List Event) : a.visitLog name t registry' log = a.visitLog name t registry log := by
  have hwalk : (a.site t registry').walk t.body = (a.site t registry).walk t.body := by
    have hbody : (a.site t registry').checkBody none t.body
        = (a.site t registry).checkBody none t.body :=
      Site.checkBody_withRegistry (c := a.site t registry) h none t.body
    rw [Site.walk, Site.walk, hbody]
  rw [visitLog, visitLog, hwalk]

/-- **Following imports takes the same course from states that are alike**: it logs the same, and
ends in states that are alike. -/
theorem Resolves.alike (h : a.Resolves path is registry cache registry₁ cache₁ log)
    (hr : registry.Alike registry') (hc : cache.Alike cache') :
    ∃ registry₁' cache₁', a.Resolves path is registry' cache' registry₁' cache₁' log ∧
      registry₁.Alike registry₁' ∧ cache₁.Alike cache₁' := by
  induction h generalizing registry' cache' with
  | nil => exact ⟨registry', cache', .nil, hr, hc⟩
  | @own path i rest registry registry₁ cache cache₁ log hs _ ih =>
    have hown : (some registry'.own).map Assoc.get? = (some registry.own).map Assoc.get? :=
      congrArg some hr.own_get?_eq
    obtain ⟨registry₁', cache₁', hrest, hends⟩ := ih (hr.bind i.kind hown) hc
    exact ⟨registry₁', cache₁', .own hs hrest, hends⟩
  | @dynamic path i rest registry registry₁ cache cache₁ log hs _ ih =>
    obtain ⟨registry₁', cache₁', hrest, hends⟩ := ih (hr.bind_same i.kind none) hc
    exact ⟨registry₁', cache₁', .dynamic hs hrest, hends⟩
  | @ready path k i rest registry registry₁ cache cache₁ log table hs hget _ ih =>
    obtain ⟨table', hget', hview⟩ := hc.get_of_ready hget
    have hknown : (some table').map Assoc.get? = (some table).map Assoc.get? :=
      congrArg some hview
    obtain ⟨registry₁', cache₁', hrest, hends⟩ := ih (hr.bind i.kind hknown) hc
    refine ⟨registry₁', cache₁', ?_, hends⟩
    rw [← hc.isInFlight_eq k]
    exact .ready hs hget' hrest
  | @failed path k i rest registry registry₁ cache cache₁ log e hs hget _ ih =>
    have hget' := hc.get_of_not_ready hget nofun
    obtain ⟨registry₁', cache₁', hrest, hends⟩ := ih (hr.bind_same i.kind none) hc
    exact ⟨registry₁', cache₁', .failed hs hget' hrest, hends⟩
  | @refused path k i rest registry registry₁ cache cache₁ log e hs hget hload _ ih =>
    have hget' := hc.get_of_not_ready hget nofun
    obtain ⟨registry₁', cache₁', hrest, hends⟩ := ih (hr.bind_same i.kind none)
      (hc.recordFailure k e)
    exact ⟨registry₁', cache₁', .refused hs hget' hload hrest, hends⟩
  | @visited path k i rest registry registry₁ inner cache cache₁ between log nested t hs hget hload
      _ _ ihnested ihrest =>
    have hget' := hc.get_of_not_ready hget nofun
    -- the nested visit begins with the table of its own template on both sides
    obtain ⟨inner', between', hnested, hinner, hbetween⟩ :=
      ihnested (.refl { own := t.macroTable }) ((hc.publish k (.refl t.macroTable.get?)).start k)
    obtain ⟨registry₁', cache₁', hrest, hends⟩ :=
      ihrest (hr.bind_same i.kind (some t.macroTable)) (hbetween.finish k)
    refine ⟨registry₁', cache₁', ?_, hends⟩
    rw [← visitLog_alike hinner]
    exact .visited hs hget' hload hnested hrest

end Analyzer

end TemplateContracts
