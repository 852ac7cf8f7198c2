import Mathlib.Data.Set.Card
import TemplateContracts.Proofs.WalkEvents
import TemplateContracts.Proofs.WholeRun

/-!
# The recursion over imports

A run visits templates under a bound on how deep visits nest.  Here the recursion is stated without
a bound, as the rules by which following imports comes to an end, and the bound of a run is shown to
be large enough: the rules always apply, and what they derive is what the run gives.  The log then
says how often a run asks the loader and how often it enters a template.

* `Analyzer.Resolves` : following imports comes to an end, with a registry, what is remembered and
  what was logged;
* `Analyzer.Visits` : a visit of a template comes to an end;
* `Tracks` : what a stretch of a log says about what is remembered before and behind it;
* `Analyzer.visits_visit`, `Analyzer.Resolves.followAll_eq` : the bounded recursion follows the
  rules if the names left to visit are within the bound, and the other way round;
* `Analyzer.log_without_repetition` : **a run ends, asks the loader at most once for a name and
  enters a template at most once**.
-/

namespace TemplateContracts

/-! ### What a log says about templates -/

namespace Event

/-- The name that an event asks the loader for. -/
def loadedName? : Event → Option String
  | loading name => some name
  | _ => none

/-- The name under which an event enters a template. -/
def enteredName? : Event → Option String
  | entered name _ => some name
  | _ => none

end Event

/-- The names that the loader is asked for, in order. -/
def loadedNames (log : List Event) : List String := log.filterMap Event.loadedName?

/-- The names under which templates are entered, in order. -/
def enteredNames (log : List Event) : List String := log.filterMap Event.enteredName?

@[simp] theorem loadedNames_nil : loadedNames [] = [] := rfl

@[simp] theorem enteredNames_nil : enteredNames [] = [] := rfl

@[simp] theorem loadedNames_append (log log' : List Event) :
    loadedNames (log ++ log') = loadedNames log ++ loadedNames log' :=
  List.filterMap_append

@[simp] theorem enteredNames_append (log log' : List Event) :
    enteredNames (log ++ log') = enteredNames log ++ enteredNames log' :=
  List.filterMap_append

theorem mem_of_mem_settle {events : List Event} {e : Event} (h : e ∈ Analyzer.settle events) :
    e ∈ events := by
  rcases List.mem_append.mp h with h | h
  · exact (List.mem_filter.mp h).1
  · exact (List.mem_filter.mp h).1

@[simp] theorem loadedNames_walk (c : Site) (body : List Stmt) :
    loadedNames (Analyzer.settle (c.walk body)) = [] := by
  rw [loadedNames, List.filterMap_eq_nil_iff]
  intro e he
  have hwalk := c.isOfWalk_of_mem_walk body e (mem_of_mem_settle he)
  cases e <;> first | rfl | cases hwalk

@[simp] theorem enteredNames_walk (c : Site) (body : List Stmt) :
    enteredNames (Analyzer.settle (c.walk body)) = [] := by
  rw [enteredNames, List.filterMap_eq_nil_iff]
  intro e he
  have hwalk := c.isOfWalk_of_mem_walk body e (mem_of_mem_settle he)
  cases e <;> first | rfl | cases hwalk

/-! ### The rules -/

namespace Analyzer

/-- What a visit logs, around what following its imports logs. -/
def visitLog (a : Analyzer) (name : String) (t : Template) (registry : Registry)
    (log : List Event) : List Event :=
  [.entered name t.name, .collected t.macroTable.length] ++ log ++
    settle ((a.site t registry).walk t.body)

theorem loadedNames_visitLog (a : Analyzer) (name : String) (t : Template) (registry : Registry)
    (log : List Event) : loadedNames (a.visitLog name t registry log) = loadedNames log := by
  rw [visitLog, loadedNames_append, loadedNames_append, loadedNames_walk, List.append_nil]
  exact List.nil_append _

theorem enteredNames_visitLog (a : Analyzer) (name : String) (t : Template) (registry : Registry)
    (log : List Event) :
    enteredNames (a.visitLog name t registry log) = name :: enteredNames log := by
  rw [visitLog, enteredNames_append, enteredNames_append, enteredNames_walk, List.append_nil]
  rfl

/-- `a.Resolves path is registry cache registry' cache' log` : following the imports `is` of the
template at `path` comes to an end.  The loader is asked only for a name of which nothing is
remembered, and a template that it gives is visited before the next import is looked at. -/
inductive Resolves (a : Analyzer) :
    String → List Import → Registry → ImportCache → Registry → ImportCache → List Event → Prop where
  | nil {path : String} {registry : Registry} {cache : ImportCache} :
      Resolves a path [] registry cache registry cache []
  | own {path : String} {i : Import} {rest : List Import} {registry registry' : Registry}
      {cache cache' : ImportCache} {log : List Event} :
      ImportSource.ofExpr i.template = .own →
      Resolves a path rest (registry.bind i.kind (some registry.own)) cache registry' cache' log →
      Resolves a path (i :: rest) registry cache registry' cache' log
  | dynamic {path : String} {i : Import} {rest : List Import} {registry registry' : Registry}
      {cache cache' : ImportCache} {log : List Event} :
      ImportSource.ofExpr i.template = .dynamic →
      Resolves a path rest (registry.bind i.kind none) cache registry' cache' log →
      Resolves a path (i :: rest) registry cache registry' cache'
        ([.dynamicImport i.span.line] ++ log)
  | ready {path k : String} {i : Import} {rest : List Import} {registry registry' : Registry}
      {cache cache' : ImportCache} {log : List Event} {table : MacroTable} :
      ImportSource.ofExpr i.template = .named k → cache.get k = .ready table →
      Resolves a path rest (registry.bind i.kind (some table)) cache registry' cache' log →
      Resolves a path (i :: rest) registry cache registry' cache'
        ([if cache.isInFlight k then .importCycle k else .cacheHit k] ++ log)
  | failed {path k : String} {i : Import} {rest : List Import} {registry registry' : Registry}
      {cache cache' : ImportCache} {log : List Event} {e : LoadError} :
      ImportSource.ofExpr i.template = .named k → cache.get k = .failed e →
      Resolves a path rest (registry.bind i.kind none) cache registry' cache' log →
      Resolves a path (i :: rest) registry cache registry' cache'
        ([.reported (unresolved k e (i.span.inTemplate path))] ++ log)
  | refused {path k : String} {i : Import} {rest : List Import} {registry registry' : Registry}
      {cache cache' : ImportCache} {log : List Event} {e : LoadError} :
      ImportSource.ofExpr i.template = .named k → cache.get k = .missing →
      a.loader.load k = .error e →
      Resolves a path rest (registry.bind i.kind none) (cache.recordFailure k e) registry' cache'
        log →
      Resolves a path (i :: rest) registry cache registry' cache'
        ([.loading k, .loadFailed k e, .reported (unresolved k e (i.span.inTemplate path))] ++ log)
  | visited {path k : String} {i : Import} {rest : List Import}
      {registry registry' inner : Registry} {cache cache' between : ImportCache}
      {log nested : List Event} {t : Template} :
      ImportSource.ofExpr i.template = .named k → cache.get k = .missing →
      a.loader.load k = .ok t →
      Resolves a t.name t.imports { own := t.macroTable } ((cache.publish k t.macroTable).start k)
        inner between nested →
      Resolves a path rest (registry.bind i.kind (some t.macroTable)) (between.finish k) registry'
        cache' log →
      Resolves a path (i :: rest) registry cache registry' cache'
        (.loading k :: a.visitLog k t inner nested ++ log)

/-- The visit of a template comes to an end. -/
inductive Visits (a : Analyzer) (name : String) (t : Template) (cache : ImportCache) : Visit → Prop
  | mk {registry : Registry} {cache' : ImportCache} {log : List Event} :
      Resolves a t.name t.imports { own := t.macroTable }
        ((cache.publish name t.macroTable).start name) registry cache' log →
      Visits a name t cache (cache'.finish name, a.visitLog name t registry log)

end Analyzer

/-! ### Logs and what is remembered -/

namespace ImportCache

/-- Whether a table or a failure is remembered of a name. -/
def knows (c : ImportCache) (name : String) : Bool := c.exports.has name || c.failures.has name

theorem get_eq_missing_iff {c : ImportCache} {name : String} :
    c.get name = .missing ↔ c.knows name = false := by
  unfold get knows Assoc.has
  cases c.exports.get? name with
  | some table => simp
  | none => cases c.failures.get? name <;> simp

theorem knows_publish (c : ImportCache) (name other : String) (table : MacroTable) :
    (c.publish name table).knows other = (decide (other = name) || c.knows other) := by
  rw [knows, knows, publish, Assoc.has_setIfNew, Bool.or_assoc]

theorem knows_recordFailure (c : ImportCache) (name other : String) (e : LoadError) :
    (c.recordFailure name e).knows other = (decide (other = name) || c.knows other) := by
  rw [knows, knows, recordFailure, Assoc.has_set, Bool.or_left_comm]

theorem knows_start (c : ImportCache) (name other : String) :
    (c.start name).knows other = c.knows other := rfl

theorem visited_publish {c : ImportCache} {name : String} (h : c.exports.has name = false)
    (table : MacroTable) : (c.publish name table).visited = c.visited + 1 := by
  show (c.exports.setIfNew name table).length = c.exports.length + 1
  rw [Assoc.setIfNew, h, if_neg Bool.false_ne_true, Assoc.length_set_of_has_eq_false h]

end ImportCache

/-- What the log of a stretch of a run says: the names that are asked for are new before it and
remembered behind it, and of these the ones that load are entered and counted. -/
structure Tracks (a : Analyzer) (cache cache' : ImportCache) (log : List Event) : Prop where
  nodup : (loadedNames log).Nodup
  fresh : ∀ n ∈ loadedNames log, cache.knows n = false
  knows_iff : ∀ n, cache'.knows n = true ↔ cache.knows n = true ∨ n ∈ loadedNames log
  entered_eq : enteredNames log = (loadedNames log).filter fun n => (a.loader.load n).isOk
  has_iff : ∀ n, cache'.exports.has n = true ↔ cache.exports.has n = true ∨ n ∈ enteredNames log
  visited_eq : cache'.visited = cache.visited + (enteredNames log).length

namespace Tracks

variable {a : Analyzer} {cache cache' cache'' : ImportCache} {log log' : List Event}

/-- Nothing is asked for. -/
theorem quiet (hload : loadedNames log = []) (hentered : enteredNames log = []) :
    Tracks a cache cache log := by
  refine ⟨?_, ?_, ?_, ?_, ?_, ?_⟩ <;> simp [hload, hentered]

theorem trans (h : Tracks a cache cache' log) (h' : Tracks a cache' cache'' log') :
    Tracks a cache cache'' (log ++ log') where
  nodup := by
    rw [loadedNames_append, List.nodup_append]
    refine ⟨h.nodup, h'.nodup, ?_⟩
    rintro n hn m hm rfl
    -- what the first stretch asked for is not new for the second
    have hknown := (h.knows_iff n).mpr (.inr hn)
    rw [h'.fresh n hm] at hknown
    cases hknown
  fresh := by
    intro n hn
    rw [loadedNames_append] at hn
    rcases List.mem_append.mp hn with hn | hn
    · exact h.fresh n hn
    · rw [← Bool.not_eq_true]
      intro hold
      have hnew := h'.fresh n hn
      rw [(h.knows_iff n).mpr (.inl hold)] at hnew
      cases hnew
  knows_iff := by
    intro n
    rw [h'.knows_iff, h.knows_iff, loadedNames_append, List.mem_append, or_assoc]
  entered_eq := by
    rw [enteredNames_append, h.entered_eq, h'.entered_eq, loadedNames_append, List.filter_append]
  has_iff := by
    intro n
    rw [h'.has_iff, h.has_iff, enteredNames_append, List.mem_append, or_assoc]
  visited_eq := by
    rw [h'.visited_eq, h.visited_eq, enteredNames_append, List.length_append, Nat.add_assoc]

/-- A name that does not load is remembered as a failure. -/
theorem refused {k : String} {e : LoadError} (hnew : cache.knows k = false)
    (hload : a.loader.load k = .error e) (d : Diagnostic) :
    Tracks a cache (cache.recordFailure k e) [.loading k, .loadFailed k e, .reported d] where
  nodup := List.nodup_singleton k
  fresh := by
    intro n hn
    rw [List.mem_singleton.mp hn]
    exact hnew
  knows_iff := by
    intro n
    rw [ImportCache.knows_recordFailure, Bool.or_eq_true, decide_eq_true_iff, or_comm]
    exact or_congr_right List.mem_singleton.symm
  entered_eq := by
    show [] = [k].filter fun n => (a.loader.load n).isOk
    simp [hload, Except.isOk, Except.toBool]
  has_iff := by
    intro n
    show cache.exports.has n = true ↔ _ ∨ n ∈ []
    simp
  visited_eq := rfl

/-- The visit of a template, around the stretch in which its imports are followed. -/
theorem around {k : String} {t : Template} (hnew : cache.knows k = false)
    (hload : a.loader.load k = .ok t)
    (h : Tracks a ((cache.publish k t.macroTable).start k) cache' log) (registry : Registry) :
    Tracks a cache (cache'.finish k) (.loading k :: a.visitLog k t registry log) := by
  have hloaded : loadedNames (.loading k :: a.visitLog k t registry log)
      = k :: loadedNames log := by
    show k :: loadedNames (a.visitLog k t registry log) = _
    rw [a.loadedNames_visitLog]
  have hentered : enteredNames (.loading k :: a.visitLog k t registry log)
      = k :: enteredNames log := a.enteredNames_visitLog k t registry log
  have hpublish : ∀ n, ((cache.publish k t.macroTable).start k).knows n
      = (decide (n = k) || cache.knows n) := fun n => cache.knows_publish k n t.macroTable
  have hexports : ∀ n, ((cache.publish k t.macroTable).start k).exports.has n
      = (decide (n = k) || cache.exports.has n) :=
    fun n => Assoc.has_setIfNew cache.exports k n t.macroTable
  have hfresh : ∀ n ∈ loadedNames log, n ≠ k ∧ cache.knows n = false := by
    intro n hn
    have hout := h.fresh n hn
    rw [hpublish, Bool.or_eq_false_iff, decide_eq_false_iff_not] at hout
    exact hout
  refine ⟨?_, ?_, ?_, ?_, ?_, ?_⟩
  · rw [hloaded]
    exact List.nodup_cons.mpr ⟨fun hk => (hfresh k hk).1 rfl, h.nodup⟩
  · intro n hn
    rw [hloaded] at hn
    rcases List.mem_cons.mp hn with rfl | hn
    · exact hnew
    · exact (hfresh n hn).2
  · intro n
    show cache'.knows n = true ↔ _
    rw [h.knows_iff, hpublish, hloaded, Bool.or_eq_true, decide_eq_true_iff, List.mem_cons,
      or_comm (a := n = k), or_assoc]
  · rw [hentered, hloaded, h.entered_eq, List.filter_cons_of_pos]
    rw [hload]
    rfl
  · intro n
    show cache'.exports.has n = true ↔ _
    rw [h.has_iff, hexports, hentered, Bool.or_eq_true, decide_eq_true_iff, List.mem_cons,
      or_comm (a := n = k), or_assoc]
  · have hout : cache.exports.has k = false := by
      rw [ImportCache.knows, Bool.or_eq_false_iff] at hnew
      exact hnew.1
    show cache'.visited = _
    rw [h.visited_eq, hentered, List.length_cons]
    show (cache.publish k t.macroTable).visited + _ = _
    rw [ImportCache.visited_publish hout]
    omega

end Tracks

namespace Analyzer

variable {a : Analyzer} {path name : String} {is : List Import} {registry registry' : Registry}
  {cache cache' : ImportCache} {log : List Event}

/-- The log of imports that were followed to the end, whatever is remembered before. -/
theorem Resolves.tracks (h : a.Resolves path is registry cache registry' cache' log) :
    Tracks a cache cache' log := by
  induction h with
  | nil => exact .quiet rfl rfl
  | own _ _ ih => exact ih
  | dynamic _ _ ih => exact (Tracks.quiet rfl rfl).trans ih
  | ready _ _ _ ih =>
    refine Tracks.trans (.quiet ?_ ?_) ih
    · split <;> rfl
    · split <;> rfl
  | failed _ _ _ ih => exact (Tracks.quiet rfl rfl).trans ih
  | refused _ hget hload _ ih =>
    exact (Tracks.refused (ImportCache.get_eq_missing_iff.mp hget) hload _).trans ih
  | visited _ hget hload _ _ ihnested ihrest =>
    exact (Tracks.around (ImportCache.get_eq_missing_iff.mp hget) hload ihnested _).trans ihrest

/-! ### The bound -/

/-- Following imports goes by the rules if the visits of the templates do. -/
theorem resolves_followAll_of {bound : Nat} {visit : String → Template → ImportCache → Visit}
    (hvisit : ∀ {k : String} {t : Template} {cache : ImportCache},
      (unvisited a (cache.publish k t.macroTable)).length < bound →
      a.Visits k t cache (visit k t cache))
    (path : String) (is : List Import) (registry : Registry) (cache : ImportCache)
    (hb : (unvisited a cache).length ≤ bound) :
    a.Resolves path is registry cache (a.followAll visit path is registry cache).1
      (a.followAll visit path is registry cache).2.1
      (a.followAll visit path is registry cache).2.2 := by
  induction is generalizing registry cache with
  | nil => exact .nil
  | cons i rest ih =>
    cases hs : ImportSource.ofExpr i.template with
    | own =>
      have hrest := ih (registry.bind i.kind (some registry.own)) cache hb
      simp only [followAll, follow, hs, List.nil_append]
      exact .own hs hrest
    | dynamic =>
      have hrest := ih (registry.bind i.kind none) cache hb
      simp only [followAll, follow, hs]
      exact .dynamic hs hrest
    | named k =>
      cases hget : cache.get k with
      | ready table =>
        have hrest := ih (registry.bind i.kind (some table)) cache hb
        simp only [followAll, follow, followNamed, hs, hget]
        exact .ready hs hget hrest
      | failed e =>
        have hrest := ih (registry.bind i.kind none) cache hb
        simp only [followAll, follow, followNamed, hs, hget]
        exact .failed hs hget hrest
      | missing =>
        cases hload : a.loader.load k with
        | error e =>
          have hrest := ih (registry.bind i.kind none) (cache.recordFailure k e) hb
          simp only [followAll, follow, followNamed, hs, hget, hload]
          exact .refused hs hget hload hrest
        | ok t =>
          have hnew : cache.exports.has k = false := by
            have hunknown := ImportCache.get_eq_missing_iff.mp hget
            rw [ImportCache.knows, Bool.or_eq_false_iff] at hunknown
            exact hunknown.1
          -- publishing the table leaves room for one visit fewer
          have hroom := unvisited_publish_lt (a.loader.mem_names hload) hnew t.macroTable
          have hv := hvisit (Nat.lt_of_lt_of_le hroom hb)
          simp only [followAll, follow, followNamed, hs, hget, hload]
          generalize visit k t cache = v at hv
          obtain @⟨inner, between, nested, hnested⟩ := hv
          have hfewer := unvisited_le_of_has (a := a) fun n hn =>
            (hnested.tracks.has_iff n).mpr (.inl hn)
          have hleft := Nat.le_trans hfewer (Nat.le_trans (Nat.le_of_lt hroom) hb)
          have hrest := ih (registry.bind i.kind (some t.macroTable)) (between.finish k) hleft
          exact .visited hs hget hload hnested hrest

/-- A visit goes by the rules if the names left to visit are within its bound. -/
theorem visits_visit (a : Analyzer) (bound : Nat) {name : String} {t : Template}
    {cache : ImportCache} (hb : (unvisited a (cache.publish name t.macroTable)).length < bound) :
    a.Visits name t cache (a.visit bound name t cache) := by
  induction bound generalizing name t cache with
  | zero => exact absurd hb (Nat.not_lt_zero _)
  | succ bound ih =>
    exact .mk (resolves_followAll_of ih t.name t.imports { own := t.macroTable }
      ((cache.publish name t.macroTable).start name) (Nat.le_of_lt_succ hb))

theorem visit_succ_of_followAll_eq {bound : Nat} {t : Template}
    (h : a.followAll (a.visit bound) t.name t.imports { own := t.macroTable }
      ((cache.publish name t.macroTable).start name) = (registry', cache', log)) :
    a.visit (bound + 1) name t cache = (cache'.finish name, a.visitLog name t registry' log) := by
  simp only [visit, h]
  rfl

/-- What the rules derive is what every bound gives that is large enough. -/
theorem Resolves.followAll_eq (h : a.Resolves path is registry cache registry' cache' log) :
    ∃ n, ∀ m, n ≤ m →
      a.followAll (a.visit m) path is registry cache = (registry', cache', log) := by
  induction h with
  | nil => exact ⟨0, fun _ _ => rfl⟩
  | own hs _ ih =>
    obtain ⟨n, hn⟩ := ih
    refine ⟨n, fun m hm => ?_⟩
    simp only [followAll, follow, hs, hn m hm, List.nil_append]
  | dynamic hs _ ih =>
    obtain ⟨n, hn⟩ := ih
    refine ⟨n, fun m hm => ?_⟩
    simp only [followAll, follow, hs, hn m hm]
  | ready hs hget _ ih =>
    obtain ⟨n, hn⟩ := ih
    refine ⟨n, fun m hm => ?_⟩
    simp only [followAll, follow, followNamed, hs, hget, hn m hm]
  | failed hs hget _ ih =>
    obtain ⟨n, hn⟩ := ih
    refine ⟨n, fun m hm => ?_⟩
    simp only [followAll, follow, followNamed, hs, hget, hn m hm]
  | refused hs hget hload _ ih =>
    obtain ⟨n, hn⟩ := ih
    refine ⟨n, fun m hm => ?_⟩
    simp only [followAll, follow, followNamed, hs, hget, hload, hn m hm]
  | visited hs hget hload _ _ ihnested ihrest =>
    obtain ⟨n, hn⟩ := ihnested
    obtain ⟨n', hn'⟩ := ihrest
    refine ⟨n + 1 + n', fun m hm => ?_⟩
    -- the nested visit has one level less
    obtain ⟨m', rfl⟩ : ∃ m', m = m' + 1 := ⟨m - 1, by omega⟩
    have hnested := visit_succ_of_followAll_eq (hn m' (by omega))
    have hrest := hn' (m' + 1) (by omega)
    simp only [followAll, follow, followNamed, hs, hget, hload, hnested, hrest]

theorem Visits.visit_eq {t : Template} {v : Visit} (h : a.Visits name t cache v) :
    ∃ n, ∀ m, n ≤ m → a.visit m name t cache = v := by
  obtain ⟨hresolves⟩ := h
  obtain ⟨n, hn⟩ := hresolves.followAll_eq
  refine ⟨n + 1, fun m hm => ?_⟩
  obtain ⟨m', rfl⟩ : ∃ m', m = m' + 1 := ⟨m - 1, by omega⟩
  exact visit_succ_of_followAll_eq (hn m' (by omega))

/-- The rules derive one visit of a root template, and that is the visit of the run. -/
theorem visits_root_iff (a : Analyzer) (root : Template) (v : Visit) :
    a.Visits root.name root .empty v ↔ v = a.visitRoot root := by
  have hb : (unvisited a (ImportCache.empty.publish root.name root.macroTable)).length
      < a.depthBound := Nat.lt_succ_of_le (List.length_filter_le _ _)
  have hroot : a.Visits root.name root .empty (a.visitRoot root) := visits_visit a a.depthBound hb
  constructor
  · intro h
    obtain ⟨n, hn⟩ := h.visit_eq
    obtain ⟨n', hn'⟩ := hroot.visit_eq
    rw [← hn (n + n') (by omega), hn' (n + n') (by omega)]
  · rintro rfl
    exact hroot

/-! ### What a run asks of the loader -/

/-- The rules look at the loader only at the names that are logged. -/
theorem Resolves.of_loader (h : a.Resolves path is registry cache registry' cache' log)
    {loader : Loader} (hl : ∀ n ∈ loadedNames log, loader.load n = a.loader.load n) :
    ({ a with loader } : Analyzer).Resolves path is registry cache registry' cache' log := by
  induction h with
  | nil => exact .nil
  | own hs _ ih => exact .own hs (ih hl)
  | dynamic hs _ ih => exact .dynamic hs (ih hl)
  | ready hs hget _ ih =>
    refine .ready hs hget (ih fun n hn => hl n ?_)
    rw [loadedNames_append]
    exact List.mem_append_right _ hn
  | failed hs hget _ ih => exact .failed hs hget (ih hl)
  | refused hs hget hload _ ih =>
    have hask := hl _ List.mem_cons_self
    exact .refused hs hget (hask.trans hload) (ih fun n hn => hl n (List.mem_cons_of_mem _ hn))
  | visited hs hget hload _ _ ihnested ihrest =>
    rw [loadedNames_append] at hl
    have hask := hl _ (List.mem_append_left _ List.mem_cons_self)
    refine .visited hs hget (hask.trans hload) (ihnested fun n hn => hl n ?_)
      (ihrest fun n hn => hl n (List.mem_append_right _ hn))
    refine List.mem_append_left _ (List.mem_cons_of_mem _ ?_)
    show n ∈ loadedNames (a.visitLog _ _ _ _)
    rw [loadedNames_visitLog]
    exact hn

theorem log_eq_of_loader (a : Analyzer) (root : Template) {loader : Loader}
    (hl : ∀ n ∈ loadedNames (a.visitRoot root).2, loader.load n = a.loader.load n) :
    ({ a with loader } : Analyzer).log root = a.log root := by
  have hroot := (a.visits_root_iff root (a.visitRoot root)).mpr rfl
  have hsame : a.visitRoot root = ({ a with loader } : Analyzer).visitRoot root := by
    rw [← visits_root_iff]
    generalize a.visitRoot root = v at hroot hl
    obtain ⟨hresolves⟩ := hroot
    rw [loadedNames_visitLog] at hl
    exact .mk (hresolves.of_loader hl)
  simp only [log, hsame]

/-- What a visit logs is what following its imports logs, behind entering the template. -/
theorem Visits.tracks {t : Template} {v : Visit} (h : a.Visits name t cache v) :
    ∃ log, Tracks a ((cache.publish name t.macroTable).start name) v.1 log ∧
      loadedNames v.2 = loadedNames log ∧ enteredNames v.2 = name :: enteredNames log := by
  obtain @⟨registry, cache', log, hresolves⟩ := h
  have htracks := hresolves.tracks
  refine ⟨log, ?_, a.loadedNames_visitLog name t registry log,
    a.enteredNames_visitLog name t registry log⟩
  exact ⟨htracks.nodup, htracks.fresh, htracks.knows_iff, htracks.entered_eq, htracks.has_iff,
    htracks.visited_eq⟩

/-- The names that are entered behind the root load, so there are no more of them than names that
load. -/
theorem length_enteredNames_le (h : Tracks a cache cache' log) :
    (enteredNames log).length ≤ Set.ncard {n | ∃ t, a.loader.load n = .ok t} := by
  have hnodup : (enteredNames log).Nodup := by
    rw [h.entered_eq]
    exact h.nodup.filter _
  have hfinite : Set.Finite {n | ∃ t, a.loader.load n = .ok t} :=
    (List.finite_toSet a.loader.names).subset fun n ⟨_, ht⟩ => a.loader.mem_names ht
  have hsub : ((enteredNames log).toFinset : Set String) ⊆ {n | ∃ t, a.loader.load n = .ok t} := by
    intro n hn
    rw [Finset.mem_coe, List.mem_toFinset, h.entered_eq] at hn
    have hok := (List.mem_filter.mp hn).2
    cases hload : a.loader.load n with
    | ok t => exact ⟨t, hload⟩
    | error e =>
      rw [hload] at hok
      cases hok
  calc (enteredNames log).length
    _ = (enteredNames log).toFinset.card := (List.toFinset_card_of_nodup hnodup).symm
    _ = Set.ncard ((enteredNames log).toFinset : Set String) := (Set.ncard_coe_finset _).symm
    _ ≤ _ := Set.ncard_le_ncard hsub hfinite

/-- **A run ends and repeats nothing.**  The rules of the recursion derive one outcome, that of the
run; the loader is asked at most once for a name, not for the root's, and for no other names than
the log tells; a template is entered at most once under a name; and the number that is logged at the
end is how many were entered, at most one more than there are names that load. -/
theorem log_without_repetition (a : Analyzer) (root : Template) :
    (∀ v, a.Visits root.name root .empty v ↔ v = a.visitRoot root) ∧
      (loadedNames (a.log root)).Nodup ∧ root.name ∉ loadedNames (a.log root) ∧
      (∀ loader : Loader, (∀ n ∈ loadedNames (a.log root), loader.load n = a.loader.load n) →
        ({ a with loader } : Analyzer).log root = a.log root) ∧
      (enteredNames (a.log root)).Nodup ∧
      ∃ visited, (a.log root).getLast? = some (.finished root.name visited) ∧
        visited = (enteredNames (a.log root)).length ∧
        visited ≤ Set.ncard {n | ∃ t, a.loader.load n = .ok t} + 1 := by
  have hend : a.log root
      = (a.visitRoot root).2 ++ [.finished root.name (a.visitRoot root).1.visited] := rfl
  have hloaded : loadedNames (a.log root) = loadedNames (a.visitRoot root).2 := by
    rw [hend, loadedNames_append]
    exact List.append_nil _
  have hentered : enteredNames (a.log root) = enteredNames (a.visitRoot root).2 := by
    rw [hend, enteredNames_append]
    exact List.append_nil _
  have hvisits := (a.visits_root_iff root (a.visitRoot root)).mpr rfl
  obtain ⟨log, htracks, hloads, henters⟩ := hvisits.tracks
  have hroot : root.name ∉ loadedNames log := by
    intro hmem
    -- the table of the root is published before its imports are followed
    have hnew := htracks.fresh root.name hmem
    rw [ImportCache.knows_start, ImportCache.knows_publish, decide_eq_true rfl,
      Bool.true_or] at hnew
    cases hnew
  have hvisited : (a.visitRoot root).1.visited = (enteredNames log).length + 1 := by
    rw [htracks.visited_eq, Nat.add_comm]
    rfl
  rw [hloaded, hentered, hloads, henters]
  refine ⟨a.visits_root_iff root, htracks.nodup, hroot, ?_, ?_, (a.visitRoot root).1.visited,
    ?_, ?_, ?_⟩
  · intro loader hl
    exact a.log_eq_of_loader root (hloads ▸ hl)
  · refine List.nodup_cons.mpr ⟨fun hmem => hroot ?_, ?_⟩
    · rw [htracks.entered_eq] at hmem
      exact (List.mem_filter.mp hmem).1
    · rw [htracks.entered_eq]
      exact htracks.nodup.filter _
  · rw [hend, List.getLast?_concat]
  · rw [hvisited, List.length_cons]
  · rw [hvisited]
    exact Nat.succ_le_succ (length_enteredNames_le htracks)

end Analyzer

end TemplateContracts
