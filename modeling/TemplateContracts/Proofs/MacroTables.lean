import Mathlib.Data.List.Basic
import TemplateContracts.Proofs.NodeChecks
import TemplateContracts.Template.Build

/-!
# Which declarations the macro table holds

The walk of a template reaches the macro declarations at any depth, in the bodies of macros too.
The table that calls are looked up in is collected by a pass of its own, which goes into loops and
branches but not into the bodies of macros.

* `Declaration`, `Stmt.bodyDeclarations` : the macro declarations of a template at any depth, in the
  order of reading, each with a mark whether it stands in the body of a macro;
* `Stmt.Lists` : such a list against the statements of a template and the signatures that are
  collected;
* `MacroTable.get?_ofSignatures` : the first of several signatures of one name counts;
* `Site.unknownCall?` : what an unknown macro is reported with;
* `Template.get?_macroTable_first_outside` : **a name stands for its first declaration outside of
  macro bodies**, and calls on the template itself are reported if there is none;
* `Template.macroTable_misses_inner` : a macro declared in the body of another one is called, and
  the call is reported.
-/

namespace TemplateContracts

open scoped List

/-! ### Declarations at any depth -/

/-- A macro declaration in a template. -/
structure Declaration where
  signature : Signature
  /-- Whether it stands in the body of a macro. -/
  inMacro : Bool
  deriving DecidableEq, Repr

namespace Stmt

/-- The signature of a statement that declares a macro. -/
def signature? : Stmt → Option Signature
  | macroDecl name params body _ => some (.ofDecl name.name params body)
  | _ => none

mutual

/-- The declarations of a statement at any depth, in the order of reading.  `inMacro` : the
statement itself stands in the body of a macro. -/
def declarations (inMacro : Bool) : Stmt → List Declaration
  | macroDecl name params body _ =>
    ⟨.ofDecl name.name params body, inMacro⟩ :: bodyDeclarations true body
  | loop _ _ _ body orElse _ => bodyDeclarations inMacro body ++ bodyDeclarations inMacro orElse
  | branch branches orElse _ =>
    branchesDeclarations inMacro branches ++ bodyDeclarations inMacro orElse
  | _ => []

/-- The declarations of statements. -/
def bodyDeclarations (inMacro : Bool) : List Stmt → List Declaration
  | [] => []
  | s :: rest => declarations inMacro s ++ bodyDeclarations inMacro rest

/-- The declarations of branches. -/
def branchesDeclarations (inMacro : Bool) : List (Branch Stmt) → List Declaration
  | [] => []
  | ⟨_, body⟩ :: rest => bodyDeclarations inMacro body ++ branchesDeclarations inMacro rest

end

/-- The declarations `ds` are those of the statements `ss`, and the ones outside of macro bodies
have the signatures `sigs`; there are none of these if everything stands in the body of a macro. -/
structure Lists (inMacro : Bool) (ds : List Declaration) (ss : List Stmt) (sigs : List Signature) :
    Prop where
  signatures_eq : ds.map (·.signature) = ss.filterMap signature?
  outside_eq : (ds.filter (!·.inMacro)).map (·.signature) = if inMacro then [] else sigs

namespace Lists

variable {inMacro : Bool} {ds ds' : List Declaration} {ss ss' : List Stmt}
  {sigs sigs' : List Signature}

theorem nil : Lists inMacro [] [] [] := by
  refine ⟨rfl, ?_⟩
  rw [ite_self]
  rfl

theorem append (h : Lists inMacro ds ss sigs) (h' : Lists inMacro ds' ss' sigs') :
    Lists inMacro (ds ++ ds') (ss ++ ss') (sigs ++ sigs') := by
  refine ⟨?_, ?_⟩
  · rw [List.map_append, h.signatures_eq, h'.signatures_eq, List.filterMap_append]
  · rw [List.filter_append, List.map_append, h.outside_eq, h'.outside_eq]
    cases inMacro <;> rfl

/-- A statement that declares nothing itself, in front of those inside it. -/
theorem cons (h : Lists inMacro ds ss sigs) {s : Stmt} (hs : s.signature? = none) :
    Lists inMacro ds (s :: ss) sigs := by
  refine ⟨?_, h.outside_eq⟩
  rw [h.signatures_eq, List.filterMap_cons_none hs]

end Lists

/-- The pass that collects macros finds the declarations outside of macro bodies. -/
theorem lists_cases : Cases
    (fun s => ∀ inMacro, Lists inMacro (s.declarations inMacro) s.substmts s.signatures)
    (fun body => ∀ inMacro, Lists inMacro (bodyDeclarations inMacro body) (bodySubstmts body)
      (bodySignatures body))
    (fun branches => ∀ inMacro, Lists inMacro (branchesDeclarations inMacro branches)
      (branchesSubstmts branches) (branchesSignatures branches)) where
  text _ _ _ := Lists.nil.cons rfl
  print _ _ _ := Lists.nil.cons rfl
  types _ _ := Lists.nil.cons rfl
  guarded _ _ _ := Lists.nil.cons rfl
  assign _ _ _ _ := Lists.nil.cons rfl
  loop _ _ _ _ _ _ hbody helse inMacro := ((hbody inMacro).append (helse inMacro)).cons rfl
  branch _ _ _ hbranches helse inMacro := ((hbranches inMacro).append (helse inMacro)).cons rfl
  macroDecl name params body sp hbody inMacro := by
    -- whatever the macro stands in, its body is the body of a macro
    have hinner := hbody true
    refine ⟨?_, ?_⟩
    · show _ :: (bodyDeclarations true body).map _ = _ :: (bodySubstmts body).filterMap signature?
      rw [hinner.signatures_eq]
    · cases inMacro with
      | true => exact hinner.outside_eq
      | false =>
        show _ :: ((bodyDeclarations true body).filter (!·.inMacro)).map _ = [_]
        rw [hinner.outside_eq]
        rfl
  imports _ _ := Lists.nil.cons rfl
  body_nil _ := .nil
  body_cons _ _ hs hrest inMacro := (hs inMacro).append (hrest inMacro)
  branches_nil _ := .nil
  branches_cons _ _ _ hbody hrest inMacro := (hbody inMacro).append (hrest inMacro)

theorem lists_bodyDeclarations (body : List Stmt) :
    Lists false (bodyDeclarations false body) (bodySubstmts body) (bodySignatures body) :=
  lists_cases.body body false

end Stmt

/-! ### The table -/

namespace MacroTable

theorem get?_foldl_setIfNew (sigs : List Signature) (table : MacroTable) (n : String) :
    (sigs.foldl (fun table s => table.setIfNew s.name s) table).get? n
      = (table.get? n).or (sigs.find? (·.name == n)) := by
  induction sigs generalizing table with
  | nil => rw [List.foldl_nil, List.find?_nil, Option.or_none]
  | cons s rest ih =>
    rw [List.foldl_cons, ih, Assoc.get?_setIfNew]
    by_cases hn : n = s.name
    · subst hn
      rw [if_pos rfl, List.find?_cons, beq_self_eq_true, Option.some_or]
      cases table.get? s.name <;> rfl
    · have hs : (s.name == n) = false := beq_eq_false_iff_ne.mpr (Ne.symm hn)
      rw [if_neg hn, List.find?_cons, hs]

/-- Of several signatures with one name the first counts. -/
theorem get?_ofSignatures (sigs : List Signature) (n : String) :
    (ofSignatures sigs).get? n = sigs.find? (·.name == n) :=
  get?_foldl_setIfNew sigs [] n

end MacroTable

theorem Template.get?_macroTable (t : Template) (n : String) :
    t.macroTable.get? n = (((Stmt.bodyDeclarations false t.body).filter (!·.inMacro)).find?
      (·.signature.name == n)).map (·.signature) := by
  have hlists : _ = Stmt.bodySignatures t.body :=
    (Stmt.lists_bodyDeclarations t.body).outside_eq
  show (MacroTable.ofSignatures (Stmt.bodySignatures t.body)).get? n = _
  rw [MacroTable.get?_ofSignatures, ← hlists, List.find?_map]
  rfl

/-- A name has an entry if it is declared outside of macro bodies. -/
theorem Template.get?_macroTable_eq_none_iff (t : Template) (n : String) :
    t.macroTable.get? n = none ↔
      ∀ d ∈ Stmt.bodyDeclarations false t.body, d.signature.name = n → d.inMacro = true := by
  rw [get?_macroTable, Option.map_eq_none_iff, List.find?_eq_none]
  simp only [List.mem_filter, Bool.not_eq_true', beq_iff_eq]
  constructor
  · intro h d hd hn
    rw [← Bool.not_eq_false]
    exact fun hout => h d ⟨hd, hout⟩ hn
  · rintro h d ⟨hd, hout⟩ hn
    rw [h d hd hn] at hout
    cases hout

/-- Nothing that a template imports changes its own macros. -/
theorem Analyzer.own_followAll (a : Analyzer) (visit : String → Template → ImportCache → Visit)
    (path : String) (is : List Import) (registry : Registry) (cache : ImportCache) :
    (a.followAll visit path is registry cache).1.own = registry.own := by
  induction is generalizing registry cache with
  | nil => rfl
  | cons i rest ih => exact (ih _ _).trans (registry.own_bind i.kind _)

theorem Registry.resolve_own_eq_unknown_iff (r : Registry) (n : String) :
    r.resolve .own n = .unknown ↔ r.own.get? n = none := by
  show resolveIn r.own n = .unknown ↔ _
  unfold resolveIn
  cases r.own.get? n <;> simp

/-! ### Reports of unknown macros -/

/-- Findings of another inspection. -/
theorem Owned.filter_unknownMacro {i : Inspection} {ds : List Diagnostic} (h : Owned i ds)
    (hi : i ≠ .unknownMacro) : ds.filter (·.code == .unknownMacro) = [] := by
  rw [List.filter_eq_nil_iff]
  intro d hd hcode
  have howner := h d hd
  rw [eq_of_beq hcode] at howner
  exact hi (Option.some.inj howner).symm

namespace Site

variable (c : Site)

/-- The finding of a call of an unknown macro. -/
def unknownCall? : Expr → Option Diagnostic
  | .macroCall s target n _ =>
    if c.registry.resolve target n = .unknown then
      some (.error .unknownMacro ("Unknown macro '" ++ n ++ "' " ++ (c.place s).suffix)
        (c.place s))
    else none
  | _ => none

/-- Of what a node deserves, an unknown macro is the part of calls. -/
theorem filter_nodeFindings (n : Node) :
    (c.nodeFindings n).filter (·.code == .unknownMacro)
      = (n.expr?.bind c.unknownCall?).toList := by
  have hconstant : ∀ arguments s,
      (c.constantFindings arguments s).filter (·.code == .unknownMacro) = [] := fun _ _ =>
    Owned.filter_unknownMacro (i := .invalidConstant) (Owned.toList_map fun _ => rfl) (by decide)
  cases n with
  | stmt s =>
    cases s with
    | macroDecl name params body sp =>
      exact (Macro.owned_badDeclaration? _ _).filter_unknownMacro (by decide)
    | _ => rfl
  | expr e tested =>
    cases e with
    | macroCall s target n arguments =>
      show List.filter _ (_ ++ _) = (c.unknownCall? (.macroCall s target n arguments)).toList
      rw [List.filter_append, (Macro.owned_outOfOrder? _ _).filter_unknownMacro (by decide),
        List.nil_append, unknownCall?]
      cases c.registry.resolve target n with
      | resolved sig =>
        have hcounts := Macro.owned_counts sig n arguments.length (c.place s)
        have hnames := Macro.owned_badNames? sig arguments (c.place s)
        show List.filter _ ((Macro.tooMany? sig n arguments.length (c.place s)).toList ++
          (Macro.tooFew? sig n arguments.length (c.place s)).toList ++
          (Macro.badNames? sig arguments (c.place s)).toList) = []
        rw [List.filter_append, hcounts.filter_unknownMacro (by decide),
          hnames.filter_unknownMacro (by decide), List.append_nil]
      | hidden => rfl
      | unknown => rfl
    | member s receiver attr access arguments =>
      exact Owned.filter_unknownMacro (i := .invalidEnumCase) (Owned.toList_map fun _ => rfl)
        (by decide)
    | function s n arguments =>
      simp only [nodeFindings]
      split
      · exact hconstant arguments s
      · rfl
    | test s input n arguments =>
      simp only [nodeFindings]
      split
      · exact hconstant arguments s
      · rfl
    | _ => rfl

/-- With every inspection enabled, unknown macros are reported once for each call. -/
theorem unknownMacro_enableAll (body : List Stmt) :
    (Event.findings (c.enableAll.walk body)).filter (·.code == .unknownMacro)
      ~ (Stmt.bodyExprs body).filterMap c.unknownCall? := by
  have hcovers : c.enableAll.Covers (Event.findings (c.enableAll.walk body))
      (Stmt.bodyNodes body) := covers_walk (fun _ => rfl) body
  have hfree : ∀ d : Diagnostic,
      (d.code == .unknownMacro && d.code.isScopeFree) = (d.code == .unknownMacro) := by
    intro d
    cases hd : d.code == .unknownMacro with
    | false => rfl
    | true =>
      rw [eq_of_beq hd]
      rfl
  have hnodes : (Stmt.bodyNodes body).flatMap (fun n => (n.expr?.bind c.unknownCall?).toList)
      = (Stmt.bodyExprs body).filterMap c.unknownCall? := by
    rw [← (Stmt.enumerates_bodyNodes body).exprs_eq, List.filterMap_filterMap]
    exact (List.filterMap_eq_flatMap_toList _ _).symm
  have hperm := hcovers.filter (·.code == .unknownMacro)
  rw [List.filter_filter, List.filter_flatMap] at hperm
  simp only [hfree] at hperm
  rw [← hnodes]
  refine hperm.trans (.of_eq ?_)
  exact List.flatMap_congr fun n _ => c.filter_nodeFindings n

theorem unknownMacro_walk (body : List Stmt) :
    (Event.findings (c.walk body)).filter (·.code == .unknownMacro)
      ~ if c.config.isEnabled .unknownMacro then
          (Stmt.bodyExprs body).filterMap c.unknownCall?
        else [] := by
  have hkept : Event.findings (c.walk body)
      = (Event.findings (c.enableAll.walk body)).filter c.config.keeps := filtered_walk body c
  have hkeeps : ∀ d : Diagnostic, (d.code == .unknownMacro && c.config.keeps d)
      = (c.config.isEnabled .unknownMacro && d.code == .unknownMacro) := by
    intro d
    cases hd : d.code == .unknownMacro with
    | false => rw [Bool.false_and, Bool.and_false]
    | true =>
      have hcode : d.code.inspection? = some .unknownMacro := by
        rw [eq_of_beq hd]
        rfl
      rw [Config.keeps_of_inspection hcode, Bool.true_and, Bool.and_true]
  rw [hkept, List.filter_filter]
  simp only [hkeeps]
  cases c.config.isEnabled .unknownMacro with
  | false => simp
  | true => simpa using c.unknownMacro_enableAll body

end Site

/-! ### What a template can call on itself -/

namespace Template

/-- **A name stands for its first declaration outside of macro bodies.**  The declarations of a
template are those of all its statements, at any depth.  The table holds for a name the first of
them that stands outside of macro bodies; that is the first declaration of the name anywhere, if
this one stands outside.  In every visit, whatever was visited before, a call on the template itself
is unknown just if every declaration of its name stands in the body of a macro, and the walk reports
unknown macros once for each call, wherever it stands. -/
theorem get?_macroTable_first_outside (t : Template) :
    let all := Stmt.bodyDeclarations false t.body
    all.map (·.signature) = (Stmt.bodySubstmts t.body).filterMap Stmt.signature? ∧
      (∀ n, t.macroTable.get? n
        = ((all.filter (!·.inMacro)).find? (·.signature.name == n)).map (·.signature)) ∧
      (∀ n d, all.find? (·.signature.name == n) = some d → d.inMacro = false →
        t.macroTable.get? n = some d.signature) ∧
      ∀ (a : Analyzer) (bound : Nat) (cache : ImportCache),
        let c := a.site t
          (a.followAll (a.visit bound) t.name t.imports { own := t.macroTable } cache).1
        (∀ n, c.registry.resolve .own n = .unknown ↔
          ∀ d ∈ all, d.signature.name = n → d.inMacro = true) ∧
        (Event.findings (c.walk t.body)).filter (·.code == .unknownMacro)
          ~ if a.config.isEnabled .unknownMacro then
              (Stmt.bodyExprs t.body).filterMap c.unknownCall?
            else [] := by
  intro all
  refine ⟨(Stmt.lists_bodyDeclarations t.body).signatures_eq, t.get?_macroTable, ?_, ?_⟩
  · intro n d hfind hout
    have hfirst : (all.filter (!·.inMacro)).find? (·.signature.name == n) = some d := by
      obtain ⟨hd, before, after, hall, hbefore⟩ := List.find?_eq_some_iff_append.mp hfind
      rw [List.find?_filter, List.find?_eq_some_iff_append]
      refine ⟨by simp [hout, hd], before, after, hall, fun e he => ?_⟩
      have hne : (e.signature.name == n) = false := by simpa using hbefore e he
      simp [hne]
    rw [get?_macroTable, hfirst]
    rfl
  · intro a bound cache c
    refine ⟨fun n => ?_, c.unknownMacro_walk t.body⟩
    have hown : c.registry.own = t.macroTable :=
      a.own_followAll (a.visit bound) t.name t.imports { own := t.macroTable } cache
    rw [Registry.resolve_own_eq_unknown_iff, hown, get?_macroTable_eq_none_iff]

/-- A template that declares a macro in the body of another one, and calls it. -/
def innerMacro : Template :=
  .ofBody "page.twig"
    [.macroOnLine "outer" [] [.macroOnLine "inner" [] [] 2] 1,
     .printed (.macroCall (.ofLine 3) .own "inner" [])]

/-- The walk reaches the declaration, but the table lacks it, and the call is reported. -/
theorem macroTable_misses_inner :
    (Stmt.bodySubstmts innerMacro.body).filterMap Stmt.signature?
        = [⟨"outer", [], false⟩, ⟨"inner", [], false⟩] ∧
      innerMacro.macroTable.get? "inner" = none ∧
      ({} : Analyzer).findings innerMacro
        = [.error .unknownMacro "Unknown macro 'inner' (at page.twig:3)" ⟨"page.twig", 3⟩] := by
  decide

end Template

end TemplateContracts
