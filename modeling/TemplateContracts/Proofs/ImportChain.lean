import Mathlib.Logic.Relation
import TemplateContracts.Proofs.ImportRecursion

/-!
# The chain of imports

The visits of a run nest, and the names in flight are meant to be those of the visits that are open.
To speak of every moment of a run, the recursion is unrolled into steps over a stack of open visits:
a step follows one import of the innermost visit, or walks its template and closes it.  The steps
from entering the root end where the recursion does, with the same log and the same memory.

* `OpenVisit`, `Moment` : a visit that has begun, and all there is between two steps;
* `Analyzer.step`, `Analyzer.Reaches` : one step, and any number of steps;
* `Analyzer.Resolves.reaches` : the steps do what the rules of the recursion derive;
* `Moment.Chained` : the names in flight are the chain, and what is remembered fits it;
* `Analyzer.step_cases` : all that a step can do;
* `Analyzer.inFlight_eq_chain` : **at every moment the names in flight are the open visits, the
  outermost first; an import logs a cycle iff it names one of them; none is left at the end**.
-/

namespace TemplateContracts

/-! ### Steps -/

/-- A visit that has begun and not finished. -/
structure OpenVisit where
  /-- The name under which the template was asked for. -/
  name : String
  template : Template
  /-- The imports that are not followed yet. -/
  left : List Import
  registry : Registry

/-- What there is between two steps of a run. -/
structure Moment where
  /-- The open visits, the innermost first. -/
  visits : List OpenVisit
  cache : ImportCache
  log : List Event

namespace Moment

/-- The names of the open visits, the outermost first. -/
def chain (m : Moment) : List String := (m.visits.map (·.name)).reverse

/-- The import that is followed next; none if the next step is a walk. -/
def import? (m : Moment) : Option Import := m.visits.head?.bind (·.left.head?)

/-- The next step follows an import of a name. -/
def Imports (m : Moment) (name : String) : Prop :=
  ∃ i, m.import? = some i ∧ ImportSource.ofExpr i.template = .named name

end Moment

namespace Analyzer

/-- Begins a visit inside of the open ones. -/
def enter (name : String) (t : Template) (m : Moment) : Moment where
  visits := ⟨name, t, t.imports, { own := t.macroTable }⟩ :: m.visits
  cache := (m.cache.publish name t.macroTable).start name
  log := m.log ++ [.entered name t.name, .collected t.macroTable.length]

/-- The template that an import opens: one that loads, under a name not remembered in any way. -/
def opened? (a : Analyzer) (i : Import) (cache : ImportCache) : Option (String × Template) :=
  match ImportSource.ofExpr i.template with
  | .named name =>
    match cache.get name, a.loader.load name with
    | .missing, .ok t => some (name, t)
    | _, _ => none
  | _ => none

/-- What following an import gives that opens no template. -/
def followClosed (a : Analyzer) (v : OpenVisit) (i : Import) (cache : ImportCache) :
    Option MacroTable × Visit :=
  a.follow (fun _ _ cache => (cache, [])) v.template.name v.registry.own i cache

/-- One step: the innermost visit follows an import, which may open another visit; without imports
left its template is walked and the visit ends. -/
def step (a : Analyzer) (m : Moment) : Option Moment :=
  match m.visits with
  | [] => none
  | v :: below =>
    match v.left with
    | [] =>
      some ⟨below, m.cache.finish v.name,
        m.log ++ settle ((a.site v.template v.registry).walk v.template.body)⟩
    | i :: rest =>
      match a.opened? i m.cache with
      | some (name, t) =>
        -- bound before the nested visit, which does not look at it
        let registry := v.registry.bind i.kind (some t.macroTable)
        some (enter name t
          ⟨{ v with left := rest, registry } :: below, m.cache, m.log ++ [.loading name]⟩)
      | none =>
        let (table, cache, events) := a.followClosed v i m.cache
        let registry := v.registry.bind i.kind table
        some ⟨{ v with left := rest, registry } :: below, cache, m.log ++ events⟩

/-- Any number of steps. -/
def Reaches (a : Analyzer) : Moment → Moment → Prop :=
  Relation.ReflTransGen fun m m' => a.step m = some m'

/-- The moment at which a run has entered its root. -/
def beginning (root : Template) : Moment := enter root.name root ⟨[], .empty, []⟩

/-- The moment at which the visit of the root is over. -/
def ending (a : Analyzer) (root : Template) : Moment :=
  ⟨[], (a.visitRoot root).1, (a.visitRoot root).2⟩

variable {a : Analyzer} {name : String} {t : Template} {is rest : List Import} {i : Import}
  {registry registry' : Registry} {cache cache' : ImportCache} {log L : List Event}
  {below : List OpenVisit}

theorem step_closing (a : Analyzer) (name : String) (t : Template) (registry : Registry)
    (below : List OpenVisit) (cache : ImportCache) (L : List Event) :
    a.step ⟨⟨name, t, [], registry⟩ :: below, cache, L⟩
      = some ⟨below, cache.finish name, L ++ settle ((a.site t registry).walk t.body)⟩ := rfl

theorem step_opening {k : String} {t' : Template} (h : a.opened? i cache = some (k, t')) :
    a.step ⟨⟨name, t, i :: rest, registry⟩ :: below, cache, L⟩
      = some (enter k t' ⟨⟨name, t, rest, registry.bind i.kind (some t'.macroTable)⟩ :: below,
          cache, L ++ [.loading k]⟩) := by
  simp only [step, h]

theorem step_following (a : Analyzer) (name : String) (t : Template) (registry : Registry)
    (rest : List Import) (below : List OpenVisit) (L : List Event)
    (h : a.opened? i cache = none) :
    a.step ⟨⟨name, t, i :: rest, registry⟩ :: below, cache, L⟩
      = some ⟨⟨name, t, rest, registry.bind i.kind
            (a.followClosed ⟨name, t, i :: rest, registry⟩ i cache).1⟩ :: below,
          (a.followClosed ⟨name, t, i :: rest, registry⟩ i cache).2.1,
          L ++ (a.followClosed ⟨name, t, i :: rest, registry⟩ i cache).2.2⟩ := by
  simp only [step, h]

/-! ### The steps do what the recursion does -/

/-- One import that opens no template, then the rest. -/
theorem reaches_following {events : List Event} {table : Option MacroTable} {between : ImportCache}
    (hopen : a.opened? i cache = none)
    (hfollow : a.followClosed ⟨name, t, i :: rest, registry⟩ i cache = (table, between, events))
    (hrest : ∀ L, a.Reaches ⟨⟨name, t, rest, registry.bind i.kind table⟩ :: below, between, L⟩
      ⟨⟨name, t, [], registry'⟩ :: below, cache', L ++ log⟩) (L : List Event) :
    a.Reaches ⟨⟨name, t, i :: rest, registry⟩ :: below, cache, L⟩
      ⟨⟨name, t, [], registry'⟩ :: below, cache', L ++ (events ++ log)⟩ := by
  have hstep := a.step_following name t registry rest below L hopen
  rw [hfollow] at hstep
  rw [← List.append_assoc]
  exact .head hstep (hrest (L ++ events))

/-- What the rules derive is reached by steps, whatever visits are open around. -/
theorem Resolves.reaches {path : String}
    (h : a.Resolves path is registry cache registry' cache' log) (hpath : t.name = path)
    (name : String) (below : List OpenVisit) (L : List Event) :
    a.Reaches ⟨⟨name, t, is, registry⟩ :: below, cache, L⟩
      ⟨⟨name, t, [], registry'⟩ :: below, cache', L ++ log⟩ := by
  induction h generalizing name t below L with
  | nil =>
    rw [List.append_nil]
    exact .refl
  | @own _ _ _ _ _ _ _ log hs _ ih =>
    rw [← List.nil_append log]
    refine reaches_following ?_ ?_ (ih hpath name below) L
    · simp only [opened?, hs]
    · simp only [followClosed, follow, hs]
  | dynamic hs _ ih =>
    refine reaches_following ?_ ?_ (ih hpath name below) L
    · simp only [opened?, hs]
    · simp only [followClosed, follow, hs]
  | ready hs hget _ ih =>
    refine reaches_following ?_ ?_ (ih hpath name below) L
    · simp only [opened?, hs, hget]
    · simp only [followClosed, follow, followNamed, hs, hget]
  | failed hs hget _ ih =>
    refine reaches_following ?_ ?_ (ih hpath name below) L
    · simp only [opened?, hs, hget]
    · simp only [followClosed, follow, followNamed, hs, hget, hpath]
  | refused hs hget hload _ ih =>
    refine reaches_following ?_ ?_ (ih hpath name below) L
    · simp only [opened?, hs, hget, hload]
    · simp only [followClosed, follow, followNamed, hs, hget, hload, hpath]
  | @visited path k i rest registry registry' inner cache cache' between log nested t' hs hget hload
      _ _ ihnested ihrest =>
    have hopen : a.opened? i cache = some (k, t') := by simp only [opened?, hs, hget, hload]
    let v : OpenVisit := ⟨name, t, rest, registry.bind i.kind (some t'.macroTable)⟩
    let entering : List Event := L ++ [.loading k]
      ++ [.entered k t'.name, .collected t'.macroTable.length]
    let walk := settle ((a.site t' inner).walk t'.body)
    have hnested := ihnested rfl k (v :: below) entering
    have hclose := a.step_closing k t' inner (v :: below) between (entering ++ nested)
    have hrest := ihrest hpath name below (entering ++ nested ++ walk)
    have hlog : entering ++ nested ++ walk ++ log
        = L ++ (.loading k :: a.visitLog k t' inner nested ++ log) := by
      simp only [entering, walk, visitLog, List.append_assoc, List.cons_append, List.nil_append]
    rw [← hlog]
    exact .head (step_opening hopen) (hnested.trans (.head hclose hrest))

/-- The steps from entering the root end where the recursion ends. -/
theorem reaches_ending (a : Analyzer) (root : Template) :
    a.Reaches (beginning root) (a.ending root) := by
  have hvisits := (a.visits_root_iff root (a.visitRoot root)).mpr rfl
  unfold ending
  generalize a.visitRoot root = v at hvisits
  obtain @⟨registry, cache', log, hresolves⟩ := hvisits
  have hreach := hresolves.reaches rfl root.name []
    [.entered root.name root.name, .collected root.macroTable.length]
  exact hreach.tail (a.step_closing _ _ _ _ _ _)

/-- A moment that is reached from the beginning lies on the way to the end. -/
theorem Reaches.reaches_ending {root : Template} {m : Moment} (h : a.Reaches (beginning root) m) :
    a.Reaches m (a.ending root) := by
  have hdet : Relator.RightUnique fun m m' => a.step m = some m' := by
    intro m m₁ m₂ h₁ h₂
    exact Option.some.inj (h₁.symm.trans h₂)
  rcases Relation.ReflTransGen.total_of_right_unique hdet h (a.reaches_ending root) with hm | hm
  · exact hm
  · -- no step leaves the end
    rcases hm.cases_head with rfl | ⟨m', hstep, -⟩
    · exact .refl
    · cases hstep

end Analyzer

/-! ### The chain -/

theorem eraseLast_append_self (names : List String) (name : String) :
    eraseLast (names ++ [name]) name = names := by
  rw [eraseLast, List.reverse_append, List.reverse_singleton, List.singleton_append,
    List.erase_cons_head, List.reverse_reverse]

namespace Moment

/-- The names in flight are the chain, and what is remembered fits it. -/
structure Chained (m : Moment) : Prop where
  inFlight_eq : m.cache.inFlight = m.chain
  nodup : m.chain.Nodup
  published : ∀ n ∈ m.chain, m.cache.exports.has n = true
  disjoint : ∀ n, ¬(m.cache.exports.has n = true ∧ m.cache.failures.has n = true)

theorem chain_cons (v : OpenVisit) (below : List OpenVisit) (cache : ImportCache)
    (log : List Event) :
    chain ⟨v :: below, cache, log⟩ = chain ⟨below, cache, log⟩ ++ [v.name] := by
  rw [chain, List.map_cons, List.reverse_cons]
  rfl

/-- Only the names of the open visits count, not how far they are. -/
theorem Chained.congr {m : Moment} (h : m.Chained) {visits : List OpenVisit}
    (hnames : visits.map (·.name) = m.visits.map (·.name)) (log : List Event) :
    Chained ⟨visits, m.cache, log⟩ := by
  have hchain : chain ⟨visits, m.cache, log⟩ = m.chain := congrArg List.reverse hnames
  refine ⟨?_, ?_, ?_, h.disjoint⟩
  · rw [hchain]
    exact h.inFlight_eq
  · rw [hchain]
    exact h.nodup
  · rw [hchain]
    exact h.published

/-- A failure is remembered only of a name that has no table. -/
theorem Chained.recordFailure {m : Moment} (h : m.Chained) {name : String}
    (hnew : m.cache.knows name = false) (e : LoadError) :
    Chained { m with cache := m.cache.recordFailure name e } := by
  refine ⟨h.inFlight_eq, h.nodup, h.published, ?_⟩
  intro n hn
  have hfailed : (decide (n = name) || m.cache.failures.has n) = true := by
    rw [← Assoc.has_set]
    exact hn.2
  rw [ImportCache.knows, Bool.or_eq_false_iff] at hnew
  rcases Bool.or_eq_true_iff.mp hfailed with heq | hold
  · have hhas : m.cache.exports.has n = true := hn.1
    rw [of_decide_eq_true heq, hnew.1] at hhas
    cases hhas
  · exact h.disjoint n ⟨hn.1, hold⟩

/-- A visit begins only under a name of which nothing is remembered, so it is not in the chain. -/
theorem Chained.enter {m : Moment} (h : m.Chained) {name : String}
    (hnew : m.cache.knows name = false) (t : Template) : (Analyzer.enter name t m).Chained := by
  rw [ImportCache.knows, Bool.or_eq_false_iff] at hnew
  have hchain : (Analyzer.enter name t m).chain = m.chain ++ [name] := chain_cons _ _ _ _
  have hout : name ∉ m.chain := by
    intro hmem
    have hhas := h.published name hmem
    rw [hnew.1] at hhas
    cases hhas
  have hexports : ∀ n, (Analyzer.enter name t m).cache.exports.has n
      = (decide (n = name) || m.cache.exports.has n) :=
    fun n => Assoc.has_setIfNew m.cache.exports name n t.macroTable
  refine ⟨?_, ?_, ?_, ?_⟩
  · rw [hchain, ← h.inFlight_eq]
    rfl
  · rw [hchain, ← List.concat_eq_append]
    exact h.nodup.concat hout
  · intro n hn
    rw [hexports, Bool.or_eq_true, decide_eq_true_iff]
    rw [hchain] at hn
    rcases List.mem_append.mp hn with hn | hn
    · exact .inr (h.published n hn)
    · exact .inl (List.mem_singleton.mp hn)
  · intro n hn
    rw [hexports, Bool.or_eq_true, decide_eq_true_iff] at hn
    have hfailed : m.cache.failures.has n = true := hn.2
    rcases hn.1 with rfl | hold
    · rw [hnew.2] at hfailed
      cases hfailed
    · exact h.disjoint n ⟨hold, hfailed⟩

/-- The visit that ends is the innermost, and its name the last in flight. -/
theorem Chained.leave {v : OpenVisit} {below : List OpenVisit} {cache : ImportCache}
    {log : List Event} (h : Chained ⟨v :: below, cache, log⟩) (log' : List Event) :
    Chained ⟨below, cache.finish v.name, log'⟩ := by
  have hchain : chain ⟨v :: below, cache, log⟩
      = chain ⟨below, cache.finish v.name, log'⟩ ++ [v.name] := chain_cons v below cache log
  obtain ⟨hflight, hnodup, hpublished, hdisjoint⟩ := h
  rw [hchain] at hflight hnodup hpublished
  refine ⟨?_, (List.nodup_append.mp hnodup).1, ?_, hdisjoint⟩
  · show eraseLast cache.inFlight v.name = _
    rw [hflight, eraseLast_append_self]
  · intro n hn
    exact hpublished n (List.mem_append_left _ hn)

/-- A name of the chain has a table, so an import finds it ready and in flight. -/
theorem Chained.isInFlight_iff {m : Moment} (h : m.Chained) {name : String} :
    m.cache.isInFlight name = true ↔ name ∈ m.chain := by
  rw [ImportCache.isInFlight, List.contains_iff_mem, h.inFlight_eq]

end Moment

/-! ### What a step does -/

namespace Analyzer

variable {a : Analyzer} {m m' : Moment} {i : Import} {cache : ImportCache}

theorem of_opened?_eq_some {k : String} {t : Template} (h : a.opened? i cache = some (k, t)) :
    ImportSource.ofExpr i.template = .named k ∧ cache.knows k = false := by
  unfold opened? at h
  cases hs : ImportSource.ofExpr i.template with
  | own => simp [hs] at h
  | dynamic => simp [hs] at h
  | named name =>
    cases hget : cache.get name with
    | ready table => simp [hs, hget] at h
    | failed e => simp [hs, hget] at h
    | missing =>
      cases hload : a.loader.load name with
      | error e => simp [hs, hget, hload] at h
      | ok t' =>
        simp only [hs, hget, hload, Option.some.injEq, Prod.mk.injEq] at h
        obtain ⟨rfl, -⟩ := h
        exact ⟨rfl, ImportCache.get_eq_missing_iff.mp hget⟩

/-- Following an import that opens no template at most remembers a failure, and logs a cycle iff it
names a table of a template in flight. -/
theorem followClosed_cases (a : Analyzer) (v : OpenVisit) (hopen : a.opened? i cache = none) :
    ((a.followClosed v i cache).2.1 = cache ∨
      ∃ k e, cache.knows k = false ∧ (a.followClosed v i cache).2.1 = cache.recordFailure k e) ∧
    ∀ k, .importCycle k ∈ (a.followClosed v i cache).2.2 ↔
      ImportSource.ofExpr i.template = .named k ∧ (∃ table, cache.get k = .ready table) ∧
        cache.isInFlight k = true := by
  cases hs : ImportSource.ofExpr i.template with
  | own =>
    simp only [followClosed, follow, hs]
    simp
  | dynamic =>
    simp only [followClosed, follow, hs]
    simp
  | named name =>
    have hready : ∀ k, ImportSource.named name = .named k ∧
        (∃ table, cache.get k = .ready table) ∧ cache.isInFlight k = true →
        ∃ table, cache.get name = .ready table := by
      intro k h
      cases h.1
      exact h.2.1
    cases hget : cache.get name with
    | ready table =>
      have hfollow : a.followClosed v i cache = (some table, cache,
          [if cache.isInFlight name then .importCycle name else .cacheHit name]) := by
        simp only [followClosed, follow, followNamed, hs, hget]
      rw [hfollow]
      refine ⟨.inl rfl, fun k => ?_⟩
      rw [List.mem_singleton, ImportSource.named.injEq]
      constructor
      · intro h
        split at h
        case isTrue hflight =>
          cases h
          exact ⟨rfl, ⟨table, hget⟩, hflight⟩
        case isFalse => cases h
      · intro h
        obtain ⟨rfl, -, hflight⟩ := h
        rw [if_pos hflight]
    | failed e =>
      have hcache : (a.followClosed v i cache).2.1 = cache := by
        simp only [followClosed, follow, followNamed, hs, hget]
      refine ⟨.inl hcache, fun k => ⟨fun h => ?_, ?_⟩⟩
      · simp [followClosed, follow, followNamed, hs, hget] at h
      · intro h
        obtain ⟨table, htable⟩ := hready k h
        cases hget.symm.trans htable
    | missing =>
      cases hload : a.loader.load name with
      | ok t => simp [opened?, hs, hget, hload] at hopen
      | error e =>
        have hcache : (a.followClosed v i cache).2.1 = cache.recordFailure name e := by
          simp only [followClosed, follow, followNamed, hs, hget, hload]
        refine ⟨.inr ⟨name, e, ImportCache.get_eq_missing_iff.mp hget, hcache⟩,
          fun k => ⟨fun h => ?_, ?_⟩⟩
        · simp [followClosed, follow, followNamed, hs, hget, hload] at h
        · intro h
          obtain ⟨table, htable⟩ := hready k h
          cases hget.symm.trans htable

/-- All that a step can do: walk the template of the innermost visit and close it, open a visit, or
follow an import that opens none. -/
theorem step_cases (h : a.step m = some m') :
    (∃ v below, m.visits = v :: below ∧ v.left = [] ∧
      m' = ⟨below, m.cache.finish v.name,
        m.log ++ settle ((a.site v.template v.registry).walk v.template.body)⟩) ∨
    (∃ i visits k t, m.import? = some i ∧ a.opened? i m.cache = some (k, t) ∧
      visits.map (·.name) = m.visits.map (·.name) ∧
      m' = enter k t ⟨visits, m.cache, m.log ++ [.loading k]⟩) ∨
    ∃ i v visits, m.import? = some i ∧ a.opened? i m.cache = none ∧
      visits.map (·.name) = m.visits.map (·.name) ∧
      m' = ⟨visits, (a.followClosed v i m.cache).2.1,
        m.log ++ (a.followClosed v i m.cache).2.2⟩ := by
  obtain ⟨visits, cache, log⟩ := m
  cases visits with
  | nil => cases h
  | cons v below =>
    obtain ⟨name, t, left, registry⟩ := v
    cases left with
    | nil =>
      rw [step_closing] at h
      exact .inl ⟨_, below, rfl, rfl, (Option.some.inj h).symm⟩
    | cons i rest =>
      cases hopen : a.opened? i cache with
      | some opened =>
        rw [step_opening hopen] at h
        exact .inr (.inl ⟨i, ⟨name, t, rest, _⟩ :: below, opened.1, opened.2, rfl, hopen, rfl,
          (Option.some.inj h).symm⟩)
      | none =>
        rw [step_following _ _ _ _ _ _ _ hopen] at h
        exact .inr (.inr ⟨i, _, ⟨name, t, rest, _⟩ :: below, rfl, hopen, rfl,
          (Option.some.inj h).symm⟩)

/-- What is logged stays, and more is logged behind it. -/
theorem Reaches.log_isPrefix (h : a.Reaches m m') : m.log <+: m'.log := by
  induction h with
  | refl => exact ⟨[], List.append_nil _⟩
  | tail _ hstep ih =>
    refine ih.trans ?_
    rcases step_cases hstep with ⟨_, _, -, -, rfl⟩ | ⟨_, _, _, _, -, -, -, rfl⟩ |
      ⟨_, _, _, -, -, -, rfl⟩
    · exact ⟨_, rfl⟩
    · exact ⟨_, (List.append_assoc _ _ _).symm⟩
    · exact ⟨_, rfl⟩

/-- A step keeps the names in flight equal to the chain. -/
theorem chained_of_step (h : a.step m = some m') (hm : m.Chained) : m'.Chained := by
  rcases step_cases h with ⟨v, below, hvisits, -, rfl⟩ | ⟨i, visits, k, t, -, hopen, hnames, rfl⟩ |
    ⟨i, v, visits, -, hopen, hnames, rfl⟩
  · obtain ⟨visits, cache, log⟩ := m
    cases hvisits
    exact hm.leave _
  · exact (hm.congr hnames _).enter (of_opened?_eq_some hopen).2 t
  · rcases (a.followClosed_cases v hopen).1 with hsame | ⟨k, e, hnew, hfailed⟩
    · rw [hsame]
      exact hm.congr hnames _
    · rw [hfailed]
      exact (hm.congr hnames _).recordFailure hnew e

/-- A step logs a cycle iff it follows an import of a name of the chain. -/
theorem cycles_of_step (h : a.step m = some m') (hm : m.Chained) :
    ∃ events, m'.log = m.log ++ events ∧
      ∀ k, .importCycle k ∈ events ↔ m.Imports k ∧ k ∈ m.chain := by
  rcases step_cases h with ⟨v, below, hvisits, hleft, rfl⟩ |
    ⟨i, visits, k, t, himport, hopen, -, rfl⟩ | ⟨i, v, visits, himport, hopen, -, rfl⟩
  · refine ⟨_, rfl, fun k => ⟨fun hk => ?_, fun hk => ?_⟩⟩
    · have hwalk := Site.isOfWalk_of_mem_walk _ _ _ (mem_of_mem_settle hk)
      cases hwalk
    · obtain ⟨⟨i, himport, -⟩, -⟩ := hk
      rw [Moment.import?, hvisits, List.head?_cons, Option.bind_some, hleft] at himport
      cases himport
  · refine ⟨_, List.append_assoc _ _ _, fun n => ⟨fun hn => by simp at hn, fun hn => ?_⟩⟩
    obtain ⟨⟨i', himport', hs'⟩, hchain⟩ := hn
    obtain ⟨hs, hnew⟩ := of_opened?_eq_some hopen
    cases himport.symm.trans himport'
    cases hs.symm.trans hs'
    -- a name of the chain has a table, so it opens nothing
    rw [ImportCache.knows, hm.published _ hchain] at hnew
    cases hnew
  · refine ⟨_, rfl, fun k => ?_⟩
    rw [(a.followClosed_cases v hopen).2 k]
    constructor
    · intro hk
      exact ⟨⟨i, himport, hk.1⟩, hm.isInFlight_iff.mp hk.2.2⟩
    · intro hk
      obtain ⟨⟨i', himport', hs⟩, hchain⟩ := hk
      cases himport.symm.trans himport'
      refine ⟨hs, ?_, hm.isInFlight_iff.mpr hchain⟩
      obtain ⟨table, htable⟩ := Option.isSome_iff_exists.mp (hm.published k hchain)
      exact ⟨table, by rw [ImportCache.get, htable]⟩

theorem chained_beginning (root : Template) : (beginning root).Chained := by
  have hnothing : Moment.Chained ⟨[], .empty, []⟩ := by
    refine ⟨rfl, List.nodup_nil, fun _ hn => absurd hn List.not_mem_nil, fun _ hn => ?_⟩
    cases hn.1
  exact hnothing.enter rfl root

/-- What one step keeps, any number of steps keep. -/
theorem Reaches.chained (h : a.Reaches m m') (hm : m.Chained) : m'.Chained := by
  induction h with
  | refl => exact hm
  | tail _ hstep ih => exact chained_of_step hstep ih

/-- **The names in flight are the chain of open visits.**  The steps from entering a root lead to
the end of its visit, with the memory and the log of the run, and through no other moments than
those on the way; what is logged at such a moment is a beginning of the log of the run.  The names
in flight are then those of the open visits, the outermost first, without repetition; they all have
tables, and no name has a table and a failure; and what the next step logs holds a cycle iff the
step follows an import of a name of the chain.  At the end nothing is in flight. -/
theorem inFlight_eq_chain (a : Analyzer) (root : Template) :
    a.Reaches (beginning root) (a.ending root) ∧
      (∀ m, a.Reaches (beginning root) m →
        a.Reaches m (a.ending root) ∧ m.log <+: a.log root ∧
        m.cache.inFlight = m.chain ∧ m.chain.Nodup ∧
        (∀ n ∈ m.chain, m.cache.exports.has n = true) ∧
        (∀ n, ¬(m.cache.exports.has n = true ∧ m.cache.failures.has n = true)) ∧
        ∀ m', a.step m = some m' → ∃ events, m'.log = m.log ++ events ∧
          ∀ k, .importCycle k ∈ events ↔ m.Imports k ∧ k ∈ m.chain) ∧
      (a.visitRoot root).1.inFlight = [] := by
  refine ⟨a.reaches_ending root, ?_, ?_⟩
  · intro m hreach
    have hm := hreach.chained (chained_beginning root)
    have hlog : m.log <+: a.log root :=
      hreach.reaches_ending.log_isPrefix.trans ⟨_, rfl⟩
    exact ⟨hreach.reaches_ending, hlog, hm.inFlight_eq, hm.nodup, hm.published, hm.disjoint,
      fun _ hstep => cycles_of_step hstep hm⟩
  · have hend := (a.reaches_ending root).chained (chained_beginning root)
    exact hend.inFlight_eq

end Analyzer

end TemplateContracts
