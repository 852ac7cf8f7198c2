import TemplateContracts.Analysis.Run
import TemplateContracts.Proofs.Induction

/-!
# A run, template by template

A run remembers the tables of the templates it has begun to visit, and the failures so far, and
looks there before it asks the loader.  This file says what a run reports without any of that: every
template that can be reached from the root by imports of spelled out names is reported on once, as
if its imports were looked up afresh.

* `Template.imports_eq` : the imports of a template are its import statements, at any depth;
* `Analyzer.loadFrom` : what a name stands for in a run, which is the root for its own name;
* `Analyzer.Reachable` : the names that imports lead to;
* `Analyzer.findingsUnder` : the findings of the template of a name, with nothing remembered;
* `Coherent` : what is remembered is what the loader would say.  A table is remembered before its
  template is done, so this has to hold in the middle of a visit as well;
* `KeepsCoherent` : a visit that keeps what is remembered true.  Every visit of a run does, so what
  imports bind does not depend on what was visited before;
* `Explores` : a stretch of a run that visits given names, which were not visited before it;
* `Analyzer.findings_perm_reachable` : **the findings of a run are those of the reachable templates,
  each taken once**.
-/

namespace TemplateContracts

open scoped List

/-! ### The imports of a template -/

namespace Stmt

/-- The import that a statement is. -/
def asImport? : Stmt → Option Import
  | imports i => some i
  | _ => none

theorem imports_cases : Cases (fun s => s.allImports = s.substmts.filterMap asImport?)
    (fun body => bodyImports body = (bodySubstmts body).filterMap asImport?)
    (fun branches => branchesImports branches
      = (branchesSubstmts branches).filterMap asImport?) where
  text _ _ := rfl
  print _ _ := rfl
  types _ := rfl
  guarded _ _ := rfl
  assign _ _ _ := rfl
  loop _ _ _ _ _ _ hbody helse := by
    rw [allImports, substmts, List.filterMap_cons_none rfl, List.filterMap_append, hbody, helse]
  branch _ _ _ hbranches helse := by
    rw [allImports, substmts, List.filterMap_cons_none rfl, List.filterMap_append, hbranches, helse]
  macroDecl _ _ _ _ hbody := by
    rw [allImports, substmts, List.filterMap_cons_none rfl, hbody]
  imports _ := rfl
  body_nil := rfl
  body_cons _ _ hs hrest := by
    rw [bodyImports, bodySubstmts, List.filterMap_append, hs, hrest]
  branches_nil := rfl
  branches_cons _ _ _ hbody hrest := by
    rw [branchesImports, branchesSubstmts, List.filterMap_append, hbody, hrest]

end Stmt

namespace Template

/-- **The imports of a template are its import statements**, at any depth and in the order of
reading. -/
theorem imports_eq (t : Template) :
    t.imports = (Stmt.bodySubstmts t.body).filterMap Stmt.asImport? :=
  Stmt.imports_cases.body t.body

theorem mem_imports_iff {t : Template} {i : Import} :
    i ∈ t.imports ↔ .imports i ∈ Stmt.bodySubstmts t.body := by
  rw [imports_eq, List.mem_filterMap]
  constructor
  · rintro ⟨s, hs, hi⟩
    cases s with
    | imports j =>
      cases hi
      exact hs
    | _ => cases hi
  · exact fun hi => ⟨_, hi, rfl⟩

end Template

namespace Analyzer

variable (a : Analyzer) (root : Template)

/-! ### A run with nothing remembered -/

/-- The template of a name in a run: the root under its own name, any other from the loader. -/
def loadFrom (name : String) : Except LoadError Template :=
  if name = root.name then .ok root else a.loader.load name

/-- The names that imports of spelled out names lead to, as far as they load. -/
inductive Reachable : String → Prop where
  | root : Reachable root.name
  | imported {name k : String} {t u : Template} {i : Import} :
      Reachable name → a.loadFrom root name = .ok t → i ∈ t.imports →
      ImportSource.ofExpr i.template = .named k → a.loadFrom root k = .ok u → Reachable k

/-- The table that an import gives to a template with its own table. -/
def tableOf (own : MacroTable) (i : Import) : Option MacroTable :=
  match ImportSource.ofExpr i.template with
  | .named name => (a.loadFrom root name).toOption.map (·.macroTable)
  | .own => some own
  | .dynamic => none

/-- The finding of an import whose name does not load. -/
def importFinding? (path : String) (i : Import) : Option Diagnostic :=
  match ImportSource.ofExpr i.template with
  | .named name =>
    match a.loadFrom root name with
    | .ok _ => none
    | .error e => some (unresolved name e (i.span.inTemplate path))
  | .own | .dynamic => none

/-- A registry after imports in order. -/
def bindImports (own : MacroTable) (is : List Import) (registry : Registry) : Registry :=
  is.foldl (fun r i => r.bind i.kind (a.tableOf root own i)) registry

/-- Everything that a template can call. -/
def registryOf (t : Template) : Registry :=
  a.bindImports root t.macroTable t.imports { own := t.macroTable }

/-- The findings of one template: its imports that fail, and its walk. -/
def templateFindings (t : Template) : List Diagnostic :=
  t.imports.filterMap (a.importFinding? root t.name) ++
    Event.findings ((a.site t (a.registryOf root t)).walk t.body)

/-- The findings of the template of a name. -/
def findingsUnder (name : String) : List Diagnostic :=
  match a.loadFrom root name with
  | .ok t => a.templateFindings root t
  | .error _ => []

end Analyzer

namespace Analyzer

variable {a : Analyzer} {root : Template} {i : Import} {k : String}

theorem tableOf_of_ok {u : Template} (hk : ImportSource.ofExpr i.template = .named k)
    (hu : a.loadFrom root k = .ok u) (own : MacroTable) :
    a.tableOf root own i = some u.macroTable := by
  simp only [tableOf, hk, hu, Except.toOption, Option.map_some]

theorem tableOf_of_error {e : LoadError} (hk : ImportSource.ofExpr i.template = .named k)
    (he : a.loadFrom root k = .error e) (own : MacroTable) : a.tableOf root own i = none := by
  simp only [tableOf, hk, he, Except.toOption, Option.map_none]

theorem importFinding?_of_ok {u : Template} (hk : ImportSource.ofExpr i.template = .named k)
    (hu : a.loadFrom root k = .ok u) (path : String) : a.importFinding? root path i = none := by
  simp only [importFinding?, hk, hu]

theorem importFinding?_of_error {e : LoadError} (hk : ImportSource.ofExpr i.template = .named k)
    (he : a.loadFrom root k = .error e) (path : String) :
    a.importFinding? root path i = some (unresolved k e (i.span.inTemplate path)) := by
  simp only [importFinding?, hk, he]

end Analyzer

/-! ### What is remembered -/

/-- What is remembered is what loading gives, and the root is remembered. -/
structure Coherent (a : Analyzer) (root : Template) (cache : ImportCache) : Prop where
  exports : ∀ {name table}, cache.exports.get? name = some table →
    ∃ t, a.loadFrom root name = .ok t ∧ table = t.macroTable
  failures : ∀ {name e}, cache.failures.get? name = some e → a.loadFrom root name = .error e
  root_mem : cache.exports.has root.name = true

namespace Coherent

variable {a : Analyzer} {root : Template} {cache : ImportCache}

/-- A name that is not remembered is asked of the loader. -/
theorem loadFrom_eq (h : Coherent a root cache) {name : String}
    (hname : cache.exports.has name = false) : a.loadFrom root name = a.loader.load name := by
  rw [Analyzer.loadFrom, if_neg]
  intro he
  rw [he, h.root_mem] at hname
  cases hname

theorem recordFailure (h : Coherent a root cache) {name : String} {e : LoadError}
    (hload : a.loadFrom root name = .error e) : Coherent a root (cache.recordFailure name e) := by
  refine ⟨h.exports, ?_, h.root_mem⟩
  intro other e' he'
  rw [ImportCache.recordFailure, Assoc.get?_set] at he'
  by_cases ho : other = name
  · rw [if_pos ho] at he'
    cases he'
    rw [ho, hload]
  · rw [if_neg ho] at he'
    exact h.failures he'

theorem publish (h : Coherent a root cache) {name : String} {t : Template}
    (hload : a.loadFrom root name = .ok t) : Coherent a root (cache.publish name t.macroTable) := by
  refine ⟨?_, h.failures, ?_⟩
  · intro other table htable
    rw [ImportCache.publish, Assoc.get?_setIfNew] at htable
    by_cases ho : other = name
    · rw [if_pos ho] at htable
      cases hold : cache.exports.get? name with
      | none =>
        rw [hold] at htable
        cases htable
        exact ⟨t, ho ▸ hload, rfl⟩
      | some old =>
        rw [hold] at htable
        cases htable
        exact ho ▸ h.exports hold
    · rw [if_neg ho] at htable
      exact h.exports htable
  · rw [ImportCache.publish, Assoc.has_setIfNew, h.root_mem, Bool.or_true]

theorem start (h : Coherent a root cache) (name : String) : Coherent a root (cache.start name) :=
  ⟨h.exports, h.failures, h.root_mem⟩

theorem finish (h : Coherent a root cache) (name : String) : Coherent a root (cache.finish name) :=
  ⟨h.exports, h.failures, h.root_mem⟩

/-- What looking a name up says of loading it. -/
theorem get_cases (h : Coherent a root cache) (name : String) :
    (∃ t, cache.get name = .ready t.macroTable ∧ a.loadFrom root name = .ok t ∧
      cache.exports.has name = true) ∨
    (∃ e, cache.get name = .failed e ∧ a.loadFrom root name = .error e) ∨
    (cache.get name = .missing ∧ a.loadFrom root name = a.loader.load name ∧
      cache.exports.has name = false) := by
  cases hx : cache.exports.get? name with
  | some table =>
    obtain ⟨t, hload, ht⟩ := h.exports hx
    refine .inl ⟨t, ?_, hload, ?_⟩
    · rw [ImportCache.get, hx, ht]
    · rw [Assoc.has, hx, Option.isSome_some]
  | none =>
    have hnew : cache.exports.has name = false := by rw [Assoc.has, hx, Option.isSome_none]
    cases hf : cache.failures.get? name with
    | some e => exact .inr (.inl ⟨e, by simp only [ImportCache.get, hx, hf], h.failures hf⟩)
    | none =>
      exact .inr (.inr ⟨by simp only [ImportCache.get, hx, hf], h.loadFrom_eq hnew, hnew⟩)

/-- What following an import of a name comes to.  The table is remembered; or the import fails, as
memory or the loader says; or the template is visited, for the first time. -/
theorem followNamed_cases (h : Coherent a root cache)
    (visit : String → Template → ImportCache → Analyzer.Visit) (name : String) (place : Location) :
    (∃ t event, a.loadFrom root name = .ok t ∧ cache.exports.has name = true ∧
      Event.findings [event] = [] ∧
      a.followNamed visit name place cache = (some t.macroTable, cache, [event])) ∨
    (∃ e cache' log, a.loadFrom root name = .error e ∧ cache'.exports = cache.exports ∧
      Coherent a root cache' ∧ Event.findings log = [Analyzer.unresolved name e place] ∧
      a.followNamed visit name place cache = (none, cache', log)) ∨
    ∃ t, a.loadFrom root name = .ok t ∧ a.loader.load name = .ok t ∧
      cache.exports.has name = false ∧ a.followNamed visit name place cache
        = (some t.macroTable, (visit name t cache).1, .loading name :: (visit name t cache).2) := by
  unfold Analyzer.followNamed
  rcases h.get_cases name with ⟨t, hget, hload, hhas⟩ | ⟨e, hget, hload⟩ | ⟨hget, hask, hnew⟩
  · rw [hget]
    refine .inl ⟨t, _, hload, hhas, ?_, rfl⟩
    split <;> rfl
  · rw [hget]
    exact .inr (.inl ⟨e, cache, _, hload, rfl, h, rfl, rfl⟩)
  · rw [hget]
    cases hl : a.loader.load name with
    | ok t => exact .inr (.inr ⟨t, hask.trans hl, rfl, hnew, rfl⟩)
    | error e =>
      have hload : a.loadFrom root name = .error e := hask.trans hl
      have hrecorded := h.recordFailure hload
      exact .inr (.inl ⟨e, cache.recordFailure name e, _, hload, rfl, hrecorded, rfl, rfl⟩)

end Coherent

/-- The root is remembered first, under its own name. -/
theorem coherent_root (a : Analyzer) (root : Template) :
    Coherent a root (ImportCache.empty.publish root.name root.macroTable) := by
  have hload : a.loadFrom root root.name = .ok root := if_pos rfl
  refine ⟨?_, ?_, ?_⟩
  · intro name table htable
    rw [ImportCache.publish, Assoc.get?_setIfNew] at htable
    by_cases hn : name = root.name
    · rw [if_pos hn] at htable
      cases htable
      exact ⟨root, hn ▸ hload, rfl⟩
    · rw [if_neg hn] at htable
      cases htable
  · intro name e he
    cases he
  · rw [ImportCache.publish, Assoc.has_setIfNew, decide_eq_true rfl, Bool.true_or]

/-- A visit of a template under a name that stands for it keeps what is remembered true. -/
def KeepsCoherent (a : Analyzer) (root : Template)
    (visit : String → Template → ImportCache → Analyzer.Visit) : Prop :=
  ∀ {name : String} {t : Template} {cache : ImportCache}, a.loadFrom root name = .ok t →
    Coherent a root cache → Coherent a root (visit name t cache).1

namespace KeepsCoherent

variable {a : Analyzer} {root : Template}
  {visit : String → Template → ImportCache → Analyzer.Visit} {cache : ImportCache}

/-- An import gives the table that loading gives. -/
theorem follow (hv : KeepsCoherent a root visit) (hc : Coherent a root cache) (path : String)
    (own : MacroTable) (i : Import) :
    (a.follow visit path own i cache).1 = a.tableOf root own i ∧
      Coherent a root (a.follow visit path own i cache).2.1 := by
  cases hs : ImportSource.ofExpr i.template with
  | own => simp only [Analyzer.follow, Analyzer.tableOf, hs, hc, and_self]
  | dynamic => simp only [Analyzer.follow, Analyzer.tableOf, hs, hc, and_self]
  | named k =>
    simp only [Analyzer.follow, hs]
    rcases hc.followNamed_cases visit k (i.span.inTemplate path) with
      ⟨t, event, hload, -, -, hfollow⟩ | ⟨e, cache', log, hload, -, hc', -, hfollow⟩ |
      ⟨t, hload, -, -, hfollow⟩
    · rw [hfollow, Analyzer.tableOf_of_ok hs hload]
      exact ⟨rfl, hc⟩
    · rw [hfollow, Analyzer.tableOf_of_error hs hload]
      exact ⟨rfl, hc'⟩
    · rw [hfollow, Analyzer.tableOf_of_ok hs hload]
      exact ⟨rfl, hv hload hc⟩

/-- Imports bind what they bind with nothing remembered. -/
theorem followAll (hv : KeepsCoherent a root visit) (hc : Coherent a root cache) (path : String)
    (is : List Import) (registry : Registry) :
    (a.followAll visit path is registry cache).1 = a.bindImports root registry.own is registry ∧
      Coherent a root (a.followAll visit path is registry cache).2.1 := by
  induction is generalizing registry cache with
  | nil => exact ⟨rfl, hc⟩
  | cons i rest ih =>
    obtain ⟨htable, hnext⟩ := hv.follow hc path registry.own i
    obtain ⟨hregistry, hlast⟩ := ih hnext
      (registry.bind i.kind (a.follow visit path registry.own i cache).1)
    refine ⟨?_, hlast⟩
    rw [Registry.own_bind, htable] at hregistry
    simp only [Analyzer.followAll, htable]
    exact hregistry

end KeepsCoherent

theorem keepsCoherent_visit (a : Analyzer) (root : Template) (bound : Nat) :
    KeepsCoherent a root (a.visit bound) := by
  induction bound with
  | zero => exact fun _ hc => hc
  | succ bound ih =>
    intro name t cache hload hc
    have hbegun := (hc.publish hload).start name
    exact (ih.followAll hbegun t.name t.imports { own := t.macroTable }).2.finish name

/-! ### Stretches of a run -/

/-- Every name that the imports lead to has a table. -/
def ImportsKnown (a : Analyzer) (root : Template) (is : List Import) (cache : ImportCache) : Prop :=
  ∀ i ∈ is, ∀ {k : String} {u : Template}, ImportSource.ofExpr i.template = .named k →
    a.loadFrom root k = .ok u → cache.exports.has k = true

/-- From `cache` to `cache'` the names of `vs` are visited, each for the first time, and all that
their imports lead to has been visited by then. -/
structure Explores (a : Analyzer) (root : Template) (vs : List String)
    (cache cache' : ImportCache) : Prop where
  nodup : vs.Nodup
  fresh : ∀ n ∈ vs, cache.exports.has n = false
  has_iff : ∀ n, cache'.exports.has n = true ↔ cache.exports.has n = true ∨ n ∈ vs
  reachable : ∀ n ∈ vs, a.Reachable root n
  closed : ∀ n ∈ vs, ∀ {t : Template}, a.loadFrom root n = .ok t →
    ImportsKnown a root t.imports cache'

namespace Explores

variable {a : Analyzer} {root : Template} {vs ws : List String}
  {cache cache' cache'' : ImportCache}

/-- No template is visited. -/
theorem quiet (h : cache'.exports = cache.exports) : Explores a root [] cache cache' where
  nodup := List.nodup_nil
  fresh := fun _ hn => absurd hn List.not_mem_nil
  has_iff := fun n => by simp [h]
  reachable := fun _ hn => absurd hn List.not_mem_nil
  closed := fun _ hn => absurd hn List.not_mem_nil

theorem has_of_has (h : Explores a root vs cache cache') {n : String}
    (hn : cache.exports.has n = true) : cache'.exports.has n = true :=
  (h.has_iff n).mpr (.inl hn)

theorem importsKnown (h : Explores a root vs cache cache') {is : List Import}
    (hi : ImportsKnown a root is cache) : ImportsKnown a root is cache' :=
  fun i him _ _ hk hu => h.has_of_has (hi i him hk hu)

theorem trans (h : Explores a root vs cache cache') (h' : Explores a root ws cache' cache'') :
    Explores a root (vs ++ ws) cache cache'' where
  nodup := by
    refine List.nodup_append.mpr ⟨h.nodup, h'.nodup, ?_⟩
    intro n hn m hm he
    -- what the first stretch visited is not fresh for the second
    have hold := (h.has_iff n).mpr (.inr hn)
    rw [he, h'.fresh m hm] at hold
    cases hold
  fresh := by
    intro n hn
    rcases List.mem_append.mp hn with hn | hn
    · exact h.fresh n hn
    · rw [← Bool.not_eq_true]
      intro hold
      have hnew := h'.fresh n hn
      rw [h.has_of_has hold] at hnew
      cases hnew
  has_iff := by
    intro n
    rw [h'.has_iff, h.has_iff, List.mem_append, or_assoc]
  reachable := by
    intro n hn
    rcases List.mem_append.mp hn with hn | hn
    · exact h.reachable n hn
    · exact h'.reachable n hn
  closed := by
    intro n hn t ht
    rcases List.mem_append.mp hn with hn | hn
    · exact h'.importsKnown (h.closed n hn ht)
    · exact h'.closed n hn ht

/-- The visit of a template, around the stretch in which its imports are followed. -/
theorem around {name : String} {t : Template} (hload : a.loadFrom root name = .ok t)
    (hreach : a.Reachable root name) (hnew : cache.exports.has name = false)
    (h : Explores a root vs ((cache.publish name t.macroTable).start name) cache')
    (hknown : ImportsKnown a root t.imports cache') :
    Explores a root (name :: vs) cache (cache'.finish name) := by
  have hpublish : ∀ n, ((cache.publish name t.macroTable).start name).exports.has n
      = (decide (n = name) || cache.exports.has n) :=
    fun n => Assoc.has_setIfNew cache.exports name n t.macroTable
  have hfresh : ∀ n ∈ vs, n ≠ name ∧ cache.exports.has n = false := by
    intro n hn
    have hout := h.fresh n hn
    rw [hpublish, Bool.or_eq_false_iff, decide_eq_false_iff_not] at hout
    exact hout
  refine ⟨?_, ?_, ?_, ?_, ?_⟩
  · exact List.nodup_cons.mpr ⟨fun hn => (hfresh name hn).1 rfl, h.nodup⟩
  · intro n hn
    rcases List.mem_cons.mp hn with rfl | hn
    · exact hnew
    · exact (hfresh n hn).2
  · intro n
    show cache'.exports.has n = true ↔ _
    rw [h.has_iff, hpublish, Bool.or_eq_true, decide_eq_true_iff, List.mem_cons]
    constructor
    · rintro ((he | hold) | hn)
      · exact .inr (.inl he)
      · exact .inl hold
      · exact .inr (.inr hn)
    · rintro (hold | he | hn)
      · exact .inl (.inr hold)
      · exact .inl (.inl he)
      · exact .inr hn
  · intro n hn
    rcases List.mem_cons.mp hn with rfl | hn
    · exact hreach
    · exact h.reachable n hn
  · intro n hn u hu
    rcases List.mem_cons.mp hn with rfl | hn
    · rw [hload] at hu
      cases hu
      exact hknown
    · exact h.closed n hn hu

end Explores

/-- The loadable names without a table. -/
def unvisited (a : Analyzer) (cache : ImportCache) : List String :=
  a.loader.names.filter fun n => !cache.exports.has n

theorem unvisited_le_of_has {a : Analyzer} {cache cache' : ImportCache}
    (h : ∀ n, cache.exports.has n = true → cache'.exports.has n = true) :
    (unvisited a cache').length ≤ (unvisited a cache).length := by
  rw [unvisited, unvisited, ← List.countP_eq_length_filter, ← List.countP_eq_length_filter]
  apply List.countP_mono_left
  intro n _ hn
  rw [Bool.not_eq_true', ← Bool.not_eq_true] at hn ⊢
  exact fun hold => hn (h n hold)

theorem Explores.unvisited_le {a : Analyzer} {root : Template} {vs : List String}
    {cache cache' : ImportCache} (h : Explores a root vs cache cache') :
    (unvisited a cache').length ≤ (unvisited a cache).length :=
  unvisited_le_of_has fun _ => h.has_of_has

/-- A first visit uses up a loadable name. -/
theorem unvisited_publish_lt {a : Analyzer} {cache : ImportCache} {name : String}
    (hmem : name ∈ a.loader.names) (hnew : cache.exports.has name = false) (table : MacroTable) :
    (unvisited a (cache.publish name table)).length < (unvisited a cache).length := by
  have hsub : unvisited a (cache.publish name table)
      = (unvisited a cache).filter fun n => !decide (n = name) := by
    rw [unvisited, unvisited, List.filter_filter]
    congr 1
    funext n
    rw [ImportCache.publish, Assoc.has_setIfNew, Bool.not_or]
  rw [hsub, List.length_filter_lt_length_iff_exists]
  refine ⟨name, List.mem_filter.mpr ⟨hmem, ?_⟩, ?_⟩
  · rw [hnew]; rfl
  · rw [decide_eq_true rfl]; decide

/-! ### Following imports -/

/-- Imports of a template are followed by visiting the names of `vs`. -/
structure Follows (a : Analyzer) (root : Template) (path : String) (is : List Import)
    (vs : List String) (cache : ImportCache) (v : Analyzer.Visit) : Prop where
  explores : Explores a root vs cache v.1
  known : ImportsKnown a root is v.1
  findings : (Event.findings v.2).Perm
    (is.filterMap (a.importFinding? root path) ++ vs.flatMap (a.findingsUnder root))

namespace Follows

variable {a : Analyzer} {root : Template} {path : String} {i : Import} {is : List Import}
  {vs ws : List String} {cache : ImportCache} {v w : Analyzer.Visit}

theorem nil (path : String) : Follows a root path [] [] cache (cache, []) :=
  ⟨.quiet rfl, fun _ hi => absurd hi List.not_mem_nil, .refl _⟩

/-- An import that names no template reports nothing. -/
theorem unnamed {log : List Event} (hi : ∀ k, ImportSource.ofExpr i.template ≠ .named k)
    (hlog : Event.findings log = []) (path : String) :
    Follows a root path [i] [] cache (cache, log) := by
  refine ⟨.quiet rfl, ?_, ?_⟩
  · intro j hj k u hk
    rw [List.mem_singleton.mp hj] at hk
    exact absurd hk (hi k)
  · have hnone : a.importFinding? root path i = none := by
      rw [Analyzer.importFinding?]
      split
      · exact absurd ‹_› (hi _)
      · rfl
      · rfl
    rw [hlog, List.filterMap_cons_none hnone]
    exact .refl _

theorem cons (h : Follows a root path [i] vs cache v) (h' : Follows a root path is ws v.1 w) :
    Follows a root path (i :: is) (vs ++ ws) cache (w.1, v.2 ++ w.2) := by
  refine ⟨h.explores.trans h'.explores, ?_, ?_⟩
  · intro j hj k u hk hu
    rcases List.mem_cons.mp hj with rfl | hj
    · exact h'.explores.has_of_has (h.known j (List.mem_singleton.mpr rfl) hk hu)
    · exact h'.known j hj hk hu
  · rw [Event.findings_append, ← List.singleton_append, List.filterMap_append, List.flatMap_append]
    calc Event.findings v.2 ++ Event.findings w.2
      _ ~ _ := h.findings.append h'.findings
      _ ~ _ := by
        -- the findings of the first import's visits pass those of the other imports
        rw [List.append_assoc, List.append_assoc]
        apply List.Perm.append_left
        rw [← List.append_assoc, ← List.append_assoc]
        exact List.perm_append_comm.append_right _

end Follows

/-- A first visit of a reachable template visits it, and other names for the first time each, as
long as fewer than `bound` names are left. -/
def VisitsOnce (a : Analyzer) (root : Template) (bound : Nat)
    (visit : String → Template → ImportCache → Analyzer.Visit) : Prop :=
  ∀ {name : String} {t : Template} {cache : ImportCache}, a.loadFrom root name = .ok t →
    a.Reachable root name → cache.exports.has name = false →
    Coherent a root (cache.publish name t.macroTable) →
    (unvisited a (cache.publish name t.macroTable)).length < bound →
    ∃ vs, name ∈ vs ∧ Explores a root vs cache (visit name t cache).1 ∧
      (Event.findings (visit name t cache).2).Perm (vs.flatMap (a.findingsUnder root))

section Following

variable {a : Analyzer} {root : Template} {bound : Nat}
  {visit : String → Template → ImportCache → Analyzer.Visit} {cache : ImportCache}

/-- An import of a spelled out name, whichever of memory and the loader answers. -/
theorem VisitsOnce.followNamed (hv : VisitsOnce a root bound visit) (hc : Coherent a root cache)
    (hb : (unvisited a cache).length ≤ bound) {i : Import} {k : String}
    (hk : ImportSource.ofExpr i.template = .named k)
    (hreach : ∀ {u : Template}, a.loadFrom root k = .ok u → a.Reachable root k) (path : String) :
    ∃ vs, Follows a root path [i] vs cache
      (a.followNamed visit k (i.span.inTemplate path) cache).2 := by
  have hknown : ∀ {c : ImportCache},
      (∀ {u : Template}, a.loadFrom root k = .ok u → c.exports.has k = true) →
      ImportsKnown a root [i] c := by
    intro c hhas j hj k' u hk' hu
    rw [List.mem_singleton.mp hj, hk] at hk'
    cases hk'
    exact hhas hu
  rcases hc.followNamed_cases visit k (i.span.inTemplate path) with
    ⟨t, event, hload, hhas, hquiet, hfollow⟩ | ⟨e, cache', log, hload, hsame, -, hlog, hfollow⟩ |
    ⟨t, hload, hl, hnew, hfollow⟩
  · rw [hfollow]
    refine ⟨[], .quiet rfl, hknown fun _ => hhas, ?_⟩
    rw [hquiet, List.filterMap_cons_none (Analyzer.importFinding?_of_ok hk hload path)]
    exact .refl _
  · rw [hfollow]
    refine ⟨[], .quiet hsame, hknown fun hu => ?_, ?_⟩
    · rw [hload] at hu
      cases hu
    · rw [hlog, List.filterMap_cons_some (Analyzer.importFinding?_of_error hk hload path)]
      exact .refl _
  · -- publishing the table leaves room for one visit fewer
    have hroom := unvisited_publish_lt (a.loader.mem_names hl) hnew t.macroTable
    obtain ⟨vs, hmem, hex, hperm⟩ := hv hload (hreach hload) hnew (hc.publish hload)
      (Nat.lt_of_lt_of_le hroom hb)
    rw [hfollow]
    refine ⟨vs, hex, hknown fun _ => (hex.has_iff k).mpr (.inr hmem), ?_⟩
    rw [List.filterMap_cons_none (Analyzer.importFinding?_of_ok hk hload path)]
    exact hperm

/-- An import of a reachable template. -/
theorem VisitsOnce.follow (hv : VisitsOnce a root bound visit) (hc : Coherent a root cache)
    (hb : (unvisited a cache).length ≤ bound) {name : String} {t : Template}
    (hload : a.loadFrom root name = .ok t) (hreach : a.Reachable root name) {i : Import}
    (hi : i ∈ t.imports) (path : String) (own : MacroTable) :
    ∃ vs, Follows a root path [i] vs cache (a.follow visit path own i cache).2 := by
  cases hs : ImportSource.ofExpr i.template with
  | named k =>
    rw [Analyzer.follow, hs]
    exact hv.followNamed hc hb hs (fun hu => hreach.imported hload hi hs hu) path
  | own =>
    rw [Analyzer.follow, hs]
    exact ⟨[], .unnamed (fun k hk => by rw [hs] at hk; cases hk) rfl path⟩
  | dynamic =>
    rw [Analyzer.follow, hs]
    exact ⟨[], .unnamed (fun k hk => by rw [hs] at hk; cases hk) rfl path⟩

/-- The imports of a reachable template. -/
theorem VisitsOnce.followAll (hv : VisitsOnce a root bound visit)
    (hkeeps : KeepsCoherent a root visit) (hc : Coherent a root cache)
    (hb : (unvisited a cache).length ≤ bound) {name : String} {t : Template}
    (hload : a.loadFrom root name = .ok t) (hreach : a.Reachable root name) (path : String)
    {is : List Import} (his : ∀ i ∈ is, i ∈ t.imports) (registry : Registry) :
    ∃ vs, Follows a root path is vs cache (a.followAll visit path is registry cache).2 := by
  induction is generalizing registry cache with
  | nil => exact ⟨[], .nil path⟩
  | cons i rest ih =>
    obtain ⟨vs, hf⟩ := hv.follow hc hb hload hreach (his i List.mem_cons_self) path registry.own
    have hnext := (hkeeps.follow hc path registry.own i).2
    obtain ⟨ws, hf'⟩ := ih hnext (Nat.le_trans hf.explores.unvisited_le hb)
      (fun j hj => his j (List.mem_cons_of_mem i hj))
      (registry.bind i.kind (a.follow visit path registry.own i cache).1)
    exact ⟨vs ++ ws, hf.cons hf'⟩

end Following

/-- Visits nest as deep as there are names left to visit. -/
theorem visitsOnce_visit (a : Analyzer) (root : Template) (bound : Nat) :
    VisitsOnce a root bound (a.visit bound) := by
  induction bound with
  | zero =>
    intro name t cache _ _ _ _ hb
    exact absurd hb (Nat.not_lt_zero _)
  | succ bound ih =>
    intro name t cache hload hreach hnew hc hb
    have hkeeps : KeepsCoherent a root (a.visit bound) := keepsCoherent_visit a root bound
    obtain ⟨vs, hf⟩ := ih.followAll hkeeps (hc.start name) (Nat.le_of_lt_succ hb) hload hreach
      t.name (fun _ hi => hi) { own := t.macroTable }
    have hreg := (hkeeps.followAll (hc.start name) t.name t.imports { own := t.macroTable }).1
    refine ⟨name :: vs, List.mem_cons_self, .around hload hreach hnew hf.explores hf.known, ?_⟩
    have hunder : a.findingsUnder root name = a.templateFindings root t := by
      simp only [Analyzer.findingsUnder, hload]
    rw [List.flatMap_cons, hunder, Analyzer.findings_visit, hreg, Analyzer.templateFindings,
      List.append_assoc]
    refine (hf.findings.append_right _).trans ?_
    -- the findings of the walk pass those of the visits
    rw [List.append_assoc]
    exact List.perm_append_comm.append_left _

/-! ### Whole runs -/

namespace Analyzer

/-- What is remembered when a run begins to follow the imports of its root. -/
def rootCache (root : Template) : ImportCache :=
  (ImportCache.empty.publish root.name root.macroTable).start root.name

/-- Following the imports of the root of a run. -/
def rootImports (a : Analyzer) (root : Template) : Registry × Visit :=
  a.followAll (a.visit a.loader.names.length) root.name root.imports { own := root.macroTable }
    (rootCache root)

/-- The findings of a run: those of the imports, then those of the walk. -/
theorem findings_root (a : Analyzer) (root : Template) :
    a.findings root = Event.findings (a.rootImports root).2.2 ++
      Event.findings ((a.site root (a.rootImports root).1).walk root.body) := by
  rw [findings_eq]
  exact a.findings_visit a.loader.names.length root.name root .empty

end Analyzer

/-- **The findings of a run are those of the reachable templates, each taken once.** -/
theorem Analyzer.findings_perm_reachable (a : Analyzer) (root : Template) :
    ∃ names : List String, names.Nodup ∧ (∀ name, name ∈ names ↔ a.Reachable root name) ∧
      (a.findings root).Perm (names.flatMap (a.findingsUnder root)) := by
  have hload : a.loadFrom root root.name = .ok root := if_pos rfl
  have hb : (unvisited a (ImportCache.empty.publish root.name root.macroTable)).length
      < a.depthBound := Nat.lt_succ_of_le (List.length_filter_le _ _)
  obtain ⟨names, hroot, hex, hperm⟩ := visitsOnce_visit a root a.depthBound hload .root rfl
    (coherent_root a root) hb
  refine ⟨names, hex.nodup, fun name => ⟨hex.reachable name, fun hreach => ?_⟩, ?_⟩
  · induction hreach with
    | root => exact hroot
    | imported _ ht hi hk hu ih =>
      -- nothing had a table before the root, so what has one now was visited
      rcases (hex.has_iff _).mp (hex.closed _ ih ht _ hi hk hu) with hold | hmem
      · cases hold
      · exact hmem
  · rw [findings_eq]
    exact hperm

end TemplateContracts
