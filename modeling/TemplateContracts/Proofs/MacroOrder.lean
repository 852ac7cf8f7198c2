import TemplateContracts.Proofs.AlikeRegistries
import TemplateContracts.Proofs.MacroTables

/-!
# Macros and the statements next to them

Macros are collected before a template is walked, and the body of a macro sees nothing of what
stands around it.  So a macro without defaults and the statement next to it may change places: the
two blocks of findings change places with them, and nothing else changes, not even in the templates
that import this one back.

* `MacroTable.get?_ofBody_swap` : the table answers alike in both orders;
* `Site.fst_checkMacro`, `Site.findings_checkMacro` : the walk of a macro leaves the environment as
  it was, and its findings do not depend on it;
* `Analyzer.findings_of_alike` : a run looks at the table of its root only through its names, also
  where the root is imported back;
* `Analyzer.findings_macro_swap` : **the blocks of a macro and of the statement behind it change
  places, and every other finding stays where it was**.
-/

namespace TemplateContracts

open scoped List

/-! ### Collected macros and imports -/

namespace Stmt

theorem bodySignatures_append (xs ys : List Stmt) :
    bodySignatures (xs ++ ys) = bodySignatures xs ++ bodySignatures ys := by
  induction xs with
  | nil => rfl
  | cons s rest ih =>
    rw [List.cons_append, bodySignatures, bodySignatures, ih, List.append_assoc]

theorem bodyImports_append (xs ys : List Stmt) :
    bodyImports (xs ++ ys) = bodyImports xs ++ bodyImports ys := by
  induction xs with
  | nil => rfl
  | cons s rest ih => rw [List.cons_append, bodyImports, bodyImports, ih, List.append_assoc]

/-- A statement without imports may change places with its neighbour. -/
theorem bodyImports_swap {u : Stmt} (hu : u.allImports = []) (v : Stmt) (xs ys : List Stmt) :
    bodyImports (xs ++ [v, u] ++ ys) = bodyImports (xs ++ [u, v] ++ ys) := by
  simp only [bodyImports_append, bodyImports, hu, List.nil_append, List.append_nil]

end Stmt

namespace MacroTable

/-- A signature whose name no other one has is found in front of the others and behind them. -/
theorem find?_swap {sig : Signature} {sigs : List Signature}
    (h : ∀ other ∈ sigs, other.name ≠ sig.name) (n : String) :
    (sigs ++ [sig]).find? (·.name == n) = (sig :: sigs).find? (·.name == n) := by
  rw [List.find?_append, List.find?_cons, List.find?_cons, List.find?_nil]
  cases hn : sig.name == n with
  | false => exact Option.or_none
  | true =>
    have hnone : sigs.find? (·.name == n) = none := by
      rw [List.find?_eq_none]
      intro other ho he
      exact h other ho ((eq_of_beq he).trans (eq_of_beq hn).symm)
    rw [hnone]
    rfl

theorem get?_ofBody_swap {u v : Stmt} {sig : Signature} (hu : u.signatures = [sig])
    (hv : ∀ other ∈ v.signatures, other.name ≠ sig.name) (xs ys : List Stmt) :
    (ofBody (xs ++ [v, u] ++ ys)).get? = (ofBody (xs ++ [u, v] ++ ys)).get? := by
  have hmiddle : ∀ n, (Stmt.bodySignatures [v, u]).find? (·.name == n)
      = (Stmt.bodySignatures [u, v]).find? (·.name == n) := by
    intro n
    simp only [Stmt.bodySignatures, hu, List.append_nil]
    exact find?_swap hv n
  funext n
  rw [ofBody, ofBody, get?_ofSignatures, get?_ofSignatures]
  simp only [Stmt.bodySignatures_append, List.find?_append, hmiddle]

end MacroTable

/-! ### The walk of a macro -/

namespace Site

variable {c : Site} {inside : Option String} {name : Ident} {params : List MacroParam}
  {body : List Stmt} {sp : Span}

theorem checkBody_append (c : Site) (inside : Option String) (xs ys : List Stmt) :
    c.checkBody inside (xs ++ ys) = (c.checkBody inside xs).andThen (c.checkBody inside ys) := by
  induction xs with
  | nil => rfl
  | cons s rest ih => rw [List.cons_append, checkBody, checkBody, ih, Walk.andThen_assoc]

/-- The walk of two statements between others. -/
theorem findings_walk_pair (c : Site) (u v : Stmt) (xs ys : List Stmt) :
    let before := c.checkBody none xs .empty
    let first := c.checkStmt none u before.1
    let second := c.checkStmt none v first.1
    Event.findings (c.walk (xs ++ [u, v] ++ ys))
      = Event.findings before.2 ++ Event.findings first.2 ++ Event.findings second.2 ++
        Event.findings (c.checkBody none ys second.1).2 := by
  intro before first second
  rw [walk, checkBody_append, checkBody_append]
  show Event.findings ((before.2 ++ (first.2 ++ (second.2 ++ []))) ++
    (c.checkBody none ys second.1).2) = _
  simp only [Event.findings_append, List.append_nil, List.append_assoc]

/-- The frame of a macro is gone behind it, with everything that was declared in it. -/
theorem fst_checkMacro (hdefaults : MacroParam.defaults params = []) (env : TypeEnv) :
    (c.checkStmt inside (.macroDecl name params body sp) env).1 = env := by
  have hbody := (c.refines_body (some name.name) body).env_extends
    ((env.pushFrame .macroBody).pushAll (params.map (·.name.name)) .mixed)
  rw [checkStmt, hdefaults]
  exact hbody.popFrame_of_pushFrame

theorem findings_checkMacro (hdefaults : MacroParam.defaults params = []) (env env' : TypeEnv) :
    Event.findings (c.checkStmt inside (.macroDecl name params body sp) env).2
      = Event.findings (c.checkStmt inside (.macroDecl name params body sp) env').2 := by
  -- only the defaults are read under the variables around the macro
  have hscope : ∀ m m' : Scope, c.stmtFindings inside (.macroDecl name params body sp) m
      = c.stmtFindings inside (.macroDecl name params body sp) m' := by
    intro m m'
    rw [stmtFindings, stmtFindings, hdefaults]
    rfl
  rw [(c.refines_stmt inside _).findings_eq, (c.refines_stmt inside _).findings_eq]
  exact hscope env.lookup? env'.lookup?

end Site

/-! ### Runs -/

namespace Analyzer

theorem resolves_rootImports (a : Analyzer) (root : Template) :
    a.Resolves root.name root.imports { own := root.macroTable } (rootCache root)
      (a.rootImports root).1 (a.rootImports root).2.1 (a.rootImports root).2.2 :=
  resolves_followAll_of (visits_visit a a.loader.names.length) root.name root.imports _ _
    (List.length_filter_le _ _)

/-- **A run looks at the table of its root through its names.**  Two roots with the same imports and
tables that answer alike have the same import findings, and the walk of the one is made with the
registry of the other. -/
theorem findings_of_alike (a : Analyzer) (root root' : Template) (hname : root'.name = root.name)
    (himports : root'.imports = root.imports)
    (htable : root'.macroTable.get? = root.macroTable.get?) :
    a.findings root' = Event.findings (a.rootImports root).2.2 ++
      Event.findings ((a.site root (a.rootImports root).1).walk root'.body) := by
  have hcache : (rootCache root).Alike (rootCache root') := by
    rw [rootCache, rootCache, hname]
    exact ((ImportCache.Alike.refl .empty).publish root.name htable).start root.name
  obtain ⟨registry', cache', hresolves, halike, -⟩ :=
    (a.resolves_rootImports root).alike (Registry.alike_of_own htable) hcache
  rw [← hname, ← himports] at hresolves
  have hvisit := (a.visits_root_iff root' _).mp (.mk hresolves)
  have hwalk : (a.site root' registry').walk root'.body
      = (a.site root (a.rootImports root).1).walk root'.body := by
    have hsite : a.site root' registry'
        = (a.site root (a.rootImports root).1).withRegistry registry' := by
      rw [site, site, hname]
      rfl
    rw [hsite, Site.walk, Site.walk, Site.checkBody_withRegistry halike]
  rw [findings_eq, ← hvisit]
  show Event.findings (a.visitLog root'.name root' registry' _) = _
  rw [visitLog, Event.findings_append, Event.findings_append, findings_settle, hwalk]
  rfl

/-- **A macro changes places with the statement behind it.**  If the macro has no defaults and its
body no imports, and the statement declares no macro of its name outside of macro bodies, then the
findings of the macro and those of the statement change places, and all others stay where they were:
those of the imports, also where an imported template imports this one back, and those of the
statements before and behind. -/
theorem findings_macro_swap (a : Analyzer) (path : String) (span : Span) (xs ys : List Stmt)
    (s : Stmt) (name : Ident) (params : List MacroParam) (body : List Stmt) (sp : Span)
    (hparams : ∀ p ∈ params, p.default = none) (himports : Stmt.bodyImports body = [])
    (hname : ∀ sig ∈ s.signatures, sig.name ≠ name.name) :
    let m := Stmt.macroDecl name params body sp
    let t : Template := ⟨path, xs ++ [m, s] ++ ys, span⟩
    let t' : Template := ⟨path, xs ++ [s, m] ++ ys, span⟩
    let c := a.site t (a.rootImports t).1
    let before := c.checkBody none xs .empty
    let ofMacro := c.checkStmt none m before.1
    let ofStmt := c.checkStmt none s before.1
    let first := Event.findings (a.rootImports t).2.2 ++ Event.findings before.2
    let last := Event.findings (c.checkBody none ys ofStmt.1).2
    a.findings t = first ++ Event.findings ofMacro.2 ++ Event.findings ofStmt.2 ++ last ∧
      a.findings t' = first ++ Event.findings ofStmt.2 ++ Event.findings ofMacro.2 ++ last ∧
      a.findings t' ~ a.findings t := by
  intro m t t' c before ofMacro ofStmt first last
  have hdefaults : MacroParam.defaults params = [] := List.filterMap_eq_nil_iff.mpr hparams
  have htable : t'.macroTable.get? = t.macroTable.get? :=
    MacroTable.get?_ofBody_swap (u := m) rfl hname xs ys
  have himported : t'.imports = t.imports := Stmt.bodyImports_swap (u := m) himports s xs ys
  have hrestores : ∀ env, (c.checkStmt none m env).1 = env := Site.fst_checkMacro hdefaults
  have hfindings : a.findings t
      = first ++ Event.findings ofMacro.2 ++ Event.findings ofStmt.2 ++ last := by
    have hpair := c.findings_walk_pair m s xs ys
    dsimp only at hpair
    rw [hrestores] at hpair
    rw [a.findings_root t]
    show _ ++ Event.findings (c.walk (xs ++ [m, s] ++ ys)) = _
    rw [hpair]
    simp only [first, List.append_assoc]
    rfl
  have hswapped : a.findings t'
      = first ++ Event.findings ofStmt.2 ++ Event.findings ofMacro.2 ++ last := by
    have hpair := c.findings_walk_pair s m xs ys
    dsimp only at hpair
    rw [hrestores, Site.findings_checkMacro hdefaults _ before.1] at hpair
    rw [a.findings_of_alike t t' rfl himported htable]
    show _ ++ Event.findings (c.walk (xs ++ [s, m] ++ ys)) = _
    rw [hpair]
    simp only [first, List.append_assoc]
    rfl
  refine ⟨hfindings, hswapped, ?_⟩
  have hblocks : Event.findings ofStmt.2 ++ Event.findings ofMacro.2
      ~ Event.findings ofMacro.2 ++ Event.findings ofStmt.2 := List.perm_append_comm
  have hall := (hblocks.append_left first).append_right last
  rw [hfindings, hswapped]
  simpa only [List.append_assoc] using hall

/-- A library that imports the page back, and passes too little to its macro. -/
def importsBack : Analyzer where
  loader := .ofTemplates
    [.ofBody "lib.twig"
      [.importOnLine (.string (.ofLine 1) "page.twig") "page" 1,
       .printed (.macroCall (.ofLine 2) (.inNamespace "page") "field" [])]]

/-- The page imports the library.  Its macro reads an undeclared variable, and the statement behind
the macro, a loop that declares another macro, passes too little to it as well. -/
theorem findings_macro_swap_importsBack :
    let params := [MacroParam.required "label" 2]
    let body := [Stmt.printed (.name (.ofLine 3) "x")]
    let m := Stmt.macroOnLine "field" params body 2
    let s := Stmt.loopOnLine none "row" (.name (.ofLine 4) "rows")
      [.macroOnLine "other" [] [] 5, .printed (.macroCall (.ofLine 6) .own "field" [])] [] 4
    let xs := [Stmt.importOnLine (.string (.ofLine 1) "lib.twig") "lib" 1]
    let t := Template.ofBody "page.twig" (xs ++ [m, s] ++ [])
    let t' := Template.ofBody "page.twig" (xs ++ [s, m] ++ [])
    (∀ p ∈ params, p.default = none) ∧ Stmt.bodyImports body = [] ∧
      (∀ sig ∈ s.signatures, sig.name ≠ "field") ∧
      importsBack.findings t' ~ importsBack.findings t ∧
      importsBack.findings t
        = [.error .tooFewArguments "Too few arguments (0) for macro 'field' (at lib.twig:2)"
            ⟨"lib.twig", 2⟩,
           .warning .undeclaredVariable
            "The macro \"field\" (page.twig:3) uses an undeclared variable named \"x\"."
            ⟨"page.twig", 3⟩,
           .error .tooFewArguments "Too few arguments (0) for macro 'field' (at page.twig:6)"
            ⟨"page.twig", 6⟩] := by
  intro params body m s xs t t'
  have hparams : ∀ p ∈ params, p.default = none := by decide
  have himports : Stmt.bodyImports body = [] := rfl
  have hname : ∀ sig ∈ s.signatures, sig.name ≠ "field" := by decide
  refine ⟨hparams, himports, hname, ?_, ?_⟩
  · exact (findings_macro_swap importsBack "page.twig" (.ofLine 1) xs [] s (.onLine "field" 2)
      params body (.ofLine 2) hparams himports hname).2.2
  · decide

end Analyzer

end TemplateContracts
