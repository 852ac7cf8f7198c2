import Mathlib.Order.Lattice.Nat
import TemplateContracts.Access
import TemplateContracts.Proofs.SubtypeReachability

/-!
# The nearest declaration of an attribute

A lineage lists near types before far ones, although names wait in the queue more than once and the
hierarchy may run in circles.  So the first type of a lineage that declares a member is one of the
nearest that do, and it is this declaration whose visibility decides an access.

* `ClassTable.Steps`, `ClassTable.distance` : paths with their length, and the shortest;
* `ClassTable.Layered` : the invariant of the search, a queue of names at one distance followed by
  names one step farther;
* `ClassTable.FirstDeclared` : the first declaration of the first type that has one;
* `ClassTable.Readable` : the rules by which an attribute of a class can be read;
* `ClassTable.access_by_nearest_declaration` : **an access is accepted exactly if the rules apply,
  and the declaration that they look at stands at the shortest distance**.
-/

namespace TemplateContracts

/-! ### The first of a list -/

/-- `x` is the first of a list with a property. -/
def FirstIn {α : Type} (P : α → Prop) (x : α) (xs : List α) : Prop :=
  ∃ before after, xs = before ++ x :: after ∧ P x ∧ ∀ y ∈ before, ¬ P y

section FirstIn

variable {α β : Type}

theorem find?_eq_some_iff_firstIn {p : α → Bool} {x : α} {xs : List α} :
    xs.find? p = some x ↔ FirstIn (fun y => p y = true) x xs := by
  rw [List.find?_eq_some_iff_append]
  constructor
  · rintro ⟨hx, before, after, heq, hbefore⟩
    exact ⟨before, after, heq, hx, fun y hy => by simpa using hbefore y hy⟩
  · rintro ⟨before, after, heq, hx, hbefore⟩
    exact ⟨hx, before, after, heq, fun y hy => by simpa using hbefore y hy⟩

theorem findSome?_eq_some_iff_firstIn {f : α → Option β} {y : β} {xs : List α} :
    xs.findSome? f = some y ↔ ∃ x, FirstIn (fun z => (f z).isSome = true) x xs ∧ f x = some y := by
  rw [List.findSome?_eq_some_iff]
  constructor
  · rintro ⟨before, x, after, heq, hx, hbefore⟩
    exact ⟨x, ⟨before, after, heq, by simp [hx], fun z hz => by simp [hbefore z hz]⟩, hx⟩
  · rintro ⟨x, ⟨before, after, heq, -, hbefore⟩, hx⟩
    exact ⟨before, x, after, heq, hx, fun z hz => by simpa using hbefore z hz⟩

theorem firstIn_congr {P Q : α → Prop} (h : ∀ x, P x ↔ Q x) {x : α} {xs : List α} :
    FirstIn P x xs ↔ FirstIn Q x xs := by
  rw [show P = Q from funext fun x => propext (h x)]

end FirstIn

namespace ClassTable

open Relation (ReflTransGen)

variable {t : ClassTable}

/-! ### Distances -/

/-- `t.Steps n key key'` : a path of `n` steps. -/
inductive Steps (t : ClassTable) : Nat → String → String → Prop where
  | refl (key : String) : Steps t 0 key key
  | tail {n : Nat} {start key key' : String} :
      Steps t n start key → t.Inherits key key' → Steps t (n + 1) start key'

theorem reachable_iff_steps {start key : String} :
    ReflTransGen t.Inherits start key ↔ ∃ n, t.Steps n start key := by
  constructor
  · intro hpath
    induction hpath with
    | refl => exact ⟨0, .refl start⟩
    | tail _ hstep ih =>
      obtain ⟨n, hn⟩ := ih
      exact ⟨n + 1, .tail hn hstep⟩
  · rintro ⟨n, hn⟩
    induction hn with
    | refl key => exact .refl
    | tail _ hstep ih => exact .tail ih hstep

/-- The length of the shortest path between two keys. -/
noncomputable def distance (t : ClassTable) (start key : String) : Nat :=
  sInf {n | t.Steps n start key}

theorem distance_le {n : Nat} {start key : String} (h : t.Steps n start key) :
    t.distance start key ≤ n :=
  Nat.sInf_le h

theorem steps_distance {n : Nat} {start key : String} (h : t.Steps n start key) :
    t.Steps (t.distance start key) start key :=
  Nat.sInf_mem (s := {n | t.Steps n start key}) ⟨n, h⟩

/-! ### Layers of a search -/

/-- The queue of a search holds names at distance `n` and behind them names that are one step
farther; all that is nearer has been seen, and all at distance `n` has been seen or waits in the
first part. -/
structure Layered (t : ClassTable) (start : String) (n : Nat) (now later seen : List String) :
    Prop where
  now_steps : ∀ name ∈ now, t.Steps n start (normalizeTypeName name)
  later_steps : ∀ name ∈ later, t.Steps (n + 1) start (normalizeTypeName name)
  nearer : ∀ m < n, ∀ key, t.Steps m start key → key ∈ seen
  layer : ∀ key, t.Steps n start key → key ∈ seen ∨ key ∈ now.map normalizeTypeName
  closed : t.Closed (now ++ later) seen

theorem layered_start (t : ClassTable) (c : String) :
    t.Layered (normalizeTypeName c) 0 [c] [] [] where
  now_steps name hname := by
    rw [List.mem_singleton.mp hname]
    exact .refl _
  later_steps _ h := nomatch h
  nearer _ h := absurd h (Nat.not_lt_zero _)
  layer key hsteps := by
    cases hsteps
    exact .inr (List.mem_singleton_self _)
  closed := t.closed_nil _

namespace Layered

variable {start name : String} {n : Nat} {now later seen : List String}

/-- When the names at one distance are used up, the search goes on with the next distance. -/
theorem next (h : t.Layered start n [] later seen) : t.Layered start (n + 1) later [] seen where
  now_steps := h.later_steps
  later_steps _ hname := nomatch hname
  nearer m hm key hsteps := by
    rcases Nat.lt_or_eq_of_le (Nat.le_of_lt_succ hm) with hlt | rfl
    · exact h.nearer m hlt key hsteps
    · exact (h.layer key hsteps).resolve_right List.not_mem_nil
  layer key hsteps := by
    -- the step before the last one ends at distance `n`, so it ends at a seen key
    cases hsteps with
    | tail hbefore hstep =>
      have hseen := (h.layer _ hbefore).resolve_right List.not_mem_nil
      exact h.closed _ hseen _ hstep
  closed := by
    rw [List.append_nil]
    exact h.closed

theorem skip (h : t.Layered start n (name :: now) later seen) (hs : normalizeTypeName name ∈ seen) :
    t.Layered start n now later seen where
  now_steps name' hname := h.now_steps name' (List.mem_cons_of_mem _ hname)
  later_steps := h.later_steps
  nearer := h.nearer
  layer key hsteps := by
    rcases h.layer key hsteps with hseen | hnow
    · exact .inl hseen
    · rcases List.mem_cons.mp hnow with rfl | hnow
      · exact .inl hs
      · exact .inr hnow
  closed := h.closed.skip hs

theorem expand (h : t.Layered start n (name :: now) later seen) :
    t.Layered start n now (later ++ t.listed name) (normalizeTypeName name :: seen) where
  now_steps name' hname := h.now_steps name' (List.mem_cons_of_mem _ hname)
  later_steps name' hname := by
    rcases List.mem_append.mp hname with hname | hname
    · exact h.later_steps name' hname
    · have hstep : t.Inherits (normalizeTypeName name) (normalizeTypeName name') :=
        inherits_iff_listed.mpr ⟨name', hname, rfl⟩
      exact .tail (h.now_steps name List.mem_cons_self) hstep
  nearer m hm key hsteps := List.mem_cons_of_mem _ (h.nearer m hm key hsteps)
  layer key hsteps := by
    rcases h.layer key hsteps with hseen | hnow
    · exact .inl (List.mem_cons_of_mem _ hseen)
    · rcases List.mem_cons.mp hnow with rfl | hnow
      · exact .inl List.mem_cons_self
      · exact .inr hnow
  closed := by
    rw [← List.append_assoc]
    exact h.closed.expand

/-- A key that is met for the first time is met at its distance. -/
theorem distance_eq (h : t.Layered start n (name :: now) later seen)
    (hs : normalizeTypeName name ∉ seen) : t.distance start (normalizeTypeName name) = n := by
  have hsteps := h.now_steps name List.mem_cons_self
  refine Nat.le_antisymm (distance_le hsteps) (Nat.le_of_not_lt fun hlt => hs ?_)
  exact h.nearer _ hlt _ (steps_distance hsteps)

/-- The name in front of the queue can be taken to stand in the first part. -/
theorem exists_front {queue : List String} (h : t.Layered start n now later seen)
    (hq : name :: queue = now ++ later) :
    ∃ n' now' later', n ≤ n' ∧ queue = now' ++ later' ∧
      t.Layered start n' (name :: now') later' seen := by
  cases now with
  | cons first now =>
    obtain ⟨rfl, hqueue⟩ := List.cons.inj hq
    exact ⟨n, now, later, Nat.le_refl n, hqueue, h⟩
  | nil =>
    have hlater : later = name :: queue := hq.symm
    subst hlater
    exact ⟨n + 1, queue, [], Nat.le_succ n, (List.append_nil queue).symm, h.next⟩

/-- **A search meets near keys before far ones.** -/
theorem ordered (queue seen : List String) :
    ∀ n now later, t.Layered start n now later seen → queue = now ++ later →
      (∀ key ∈ t.searchOrder queue seen, n ≤ t.distance start key) ∧
        (t.searchOrder queue seen).Pairwise
          fun key key' => t.distance start key ≤ t.distance start key' := by
  induction queue, seen using searchOrder.induct t with
  | case1 seen => simp [searchOrder]
  | case2 seen name queue key hs ih =>
    intro n now later h hq
    obtain ⟨n', now', later', hn, hqueue, h'⟩ := h.exists_front hq
    obtain ⟨hfar, hsorted⟩ := ih n' now' later' (h'.skip hs) hqueue
    rw [searchOrder, dif_pos hs]
    exact ⟨fun key' hkey' => Nat.le_trans hn (hfar key' hkey'), hsorted⟩
  | case3 seen name queue key hs ih =>
    intro n now later h hq
    obtain ⟨n', now', later', hn, rfl, h'⟩ := h.exists_front hq
    obtain ⟨hfar, hsorted⟩ := ih n' now' _ h'.expand (List.append_assoc _ _ _)
    have hkey : t.distance start key = n' := h'.distance_eq hs
    rw [searchOrder, dif_neg hs, List.pairwise_cons, hkey]
    refine ⟨fun key' hmem => ?_, hfar, hsorted⟩
    rcases List.mem_cons.mp hmem with rfl | hmem
    · exact hkey.symm ▸ hn
    · exact Nat.le_trans hn (hfar key' hmem)

end Layered

/-! ### The order of a lineage -/

/-- The keys of a lineage are the stored keys that the search meets. -/
theorem map_key_lineage (t : ClassTable) (c : String) :
    (t.lineage c).map TypeInfo.key = (t.searchOrder [c] []).filter t.types.has := by
  rw [lineage, reach_eq_filterMap]
  induction t.searchOrder [c] [] with
  | nil => rfl
  | cons key keys ih =>
    cases hget : t.types.get? key with
    | none =>
      have hhas : t.types.has key = false := by rw [Assoc.has, hget]; rfl
      rw [List.filterMap_cons_none hget, List.filter_cons_of_neg (by simp [hhas]), ih]
    | some info =>
      have hhas : t.types.has key = true := by rw [Assoc.has, hget]; rfl
      rw [List.filterMap_cons_some hget, List.filter_cons_of_pos hhas, List.map_cons, ih,
        key_of_get? hget]

theorem nodup_lineage (t : ClassTable) (c : String) : (t.lineage c).Nodup := by
  have hkeys : ((t.lineage c).map TypeInfo.key).Nodup := by
    rw [map_key_lineage]
    exact (t.nodup_searchOrder [c]).filter _
  exact hkeys.of_map _

/-- How far a type is from a name. -/
noncomputable def distanceTo (t : ClassTable) (c : String) (info : TypeInfo) : Nat :=
  t.distance (normalizeTypeName c) info.key

theorem Reached.steps_distanceTo {c : String} {info : TypeInfo} (h : t.Reached c info) :
    t.Steps (t.distanceTo c info) (normalizeTypeName c) info.key := by
  obtain ⟨key, hpath, hget⟩ := h
  rw [distanceTo, key_of_get? hget]
  obtain ⟨n, hsteps⟩ := reachable_iff_steps.mp hpath
  exact steps_distance hsteps

/-- A lineage lists near types before far ones. -/
theorem pairwise_lineage (t : ClassTable) (c : String) :
    (t.lineage c).Pairwise fun info other => t.distanceTo c info ≤ t.distanceTo c other := by
  have hkeys : ((t.lineage c).map TypeInfo.key).Pairwise fun key key' =>
      t.distance (normalizeTypeName c) key ≤ t.distance (normalizeTypeName c) key' := by
    rw [map_key_lineage]
    exact (Layered.ordered [c] [] 0 [c] [] (t.layered_start c) rfl).2.filter _
  rw [List.pairwise_map] at hkeys
  exact hkeys

/-- The first type of a lineage with a property is one of the nearest with it. -/
theorem distanceTo_le_of_firstIn {c : String} {P : TypeInfo → Prop} {info other : TypeInfo}
    (h : FirstIn P info (t.lineage c)) (hother : t.Reached c other) (hP : P other) :
    t.distanceTo c info ≤ t.distanceTo c other := by
  obtain ⟨before, after, heq, -, hbefore⟩ := h
  have hsorted := t.pairwise_lineage c
  have hmem := mem_lineage_iff.mpr hother
  rw [heq, List.pairwise_append, List.pairwise_cons] at hsorted
  rw [heq, List.mem_append, List.mem_cons] at hmem
  rcases hmem with hmem | rfl | hmem
  · exact absurd hP (hbefore other hmem)
  · exact Nat.le_refl _
  · exact hsorted.2.1.1 other hmem

end ClassTable

/-! ### First declarations -/

/-- A type declares a member with a property. -/
def TypeInfo.Declares (info : TypeInfo) (members : TypeInfo → List Member) (P : Member → Prop) :
    Prop :=
  ∃ m ∈ members info, P m

/-- A method of a name, in any ASCII case. -/
def Member.IsCalled (name : String) (m : Member) : Prop := lowercase m.name = lowercase name

instance (name : String) (m : Member) : Decidable (m.IsCalled name) :=
  inferInstanceAs (Decidable (_ = _))

instance (info : TypeInfo) (members : TypeInfo → List Member) (P : Member → Prop)
    [DecidablePred P] : Decidable (info.Declares members P) :=
  inferInstanceAs (Decidable (∃ m ∈ members info, P m))

namespace ClassTable

variable {t : ClassTable}

/-- The first declaration, in the first type of a lineage that has one. -/
def FirstDeclared (t : ClassTable) (c : String) (members : TypeInfo → List Member)
    (P : Member → Prop) (m : Member) : Prop :=
  ∃ info, FirstIn (fun info => info.Declares members P) info (t.lineage c) ∧
    FirstIn P m (members info)

theorem findSome?_lineage_eq_some_iff {c : String} {members : TypeInfo → List Member}
    {p : Member → Bool} {m : Member} :
    (t.lineage c).findSome? (fun info => (members info).find? p) = some m ↔
      t.FirstDeclared c members (fun m => p m = true) m := by
  rw [findSome?_eq_some_iff_firstIn]
  refine exists_congr fun info => and_congr ?_ find?_eq_some_iff_firstIn
  exact firstIn_congr fun _ => List.find?_isSome

theorem isSome_findSome?_lineage_iff {c : String} {members : TypeInfo → List Member}
    {p : Member → Bool} :
    ((t.lineage c).findSome? fun info => (members info).find? p).isSome = true ↔
      ∃ info, t.Reached c info ∧ info.Declares members fun m => p m = true := by
  rw [List.findSome?_isSome_iff]
  refine exists_congr fun info => and_congr mem_lineage_iff List.find?_isSome

theorem findProperty?_eq_some_iff {c name : String} {m : Member} :
    t.findProperty? c name = some m ↔
      t.FirstDeclared c (·.properties) (·.name = name) m := by
  rw [findProperty?, findSome?_lineage_eq_some_iff]
  simp only [beq_iff_eq]

theorem findMethod?_eq_some_iff {c name : String} {m : Member} :
    t.findMethod? c name = some m ↔ t.FirstDeclared c (·.methods) (Member.IsCalled name) m := by
  rw [findMethod?, findSome?_lineage_eq_some_iff]
  simp only [beq_iff_eq]
  rfl

theorem isSome_findProperty?_iff {c name : String} :
    (t.findProperty? c name).isSome = true ↔
      ∃ info, t.Reached c info ∧ info.Declares (·.properties) (·.name = name) := by
  rw [findProperty?, isSome_findSome?_lineage_iff]
  simp only [beq_iff_eq]

theorem isSome_findMethod?_iff {c name : String} :
    (t.findMethod? c name).isSome = true ↔
      ∃ info, t.Reached c info ∧ info.Declares (·.methods) (Member.IsCalled name) := by
  rw [findMethod?, isSome_findSome?_lineage_iff]
  simp only [beq_iff_eq]
  rfl

theorem hasVirtualProperty_iff {c name : String} :
    t.hasVirtualProperty c name = true ↔
      ∃ info, t.Reached c info ∧ name ∈ info.virtualProperties := by
  rw [hasVirtualProperty, List.any_eq_true]
  refine exists_congr fun info => and_congr mem_lineage_iff ?_
  rw [List.contains_iff_mem]

/-! ### Access -/

/-- The rules by which an attribute of a class can be read.  Only a plain access looks at
properties.  Of the four methods that may serve an attribute the first that is declared at all
decides. -/
inductive Accessible (t : ClassTable) (c attr : String) : AccessKind → Prop where
  | property {m : Member} : t.FirstDeclared c (·.properties) (·.name = attr) m →
      m.visibility = .pub → Accessible t c attr .any
  | virtual {info : TypeInfo} : t.Reached c info → attr ∈ info.virtualProperties →
      Accessible t c attr .any
  | method {access : AccessKind} {name : String} {m : Member} :
      FirstIn (fun name => ∃ info, t.Reached c info ∧
          info.Declares (·.methods) (Member.IsCalled name))
        name [attr, "get" ++ attr, "is" ++ attr, "has" ++ attr] →
      t.FirstDeclared c (·.methods) (Member.IsCalled name) m → m.visibility = .pub →
      Accessible t c attr access

theorem any_isPublic_iff {found : Option Member} :
    found.any (·.isPublic) = true ↔ ∃ m, found = some m ∧ m.visibility = .pub := by
  cases found <;> simp [Member.isPublic]

/-- The method that serves an attribute is a first declaration of the first accessor that any type
of the lineage declares. -/
theorem findSome?_accessors_eq_some_iff {c attr : String} {m : Member} :
    (accessors attr).findSome? (t.findMethod? c) = some m ↔
      ∃ name, FirstIn (fun name => ∃ info, t.Reached c info ∧
          info.Declares (·.methods) (Member.IsCalled name))
        name [attr, "get" ++ attr, "is" ++ attr, "has" ++ attr] ∧
      t.FirstDeclared c (·.methods) (Member.IsCalled name) m := by
  rw [findSome?_eq_some_iff_firstIn]
  refine exists_congr fun name => and_congr ?_ findMethod?_eq_some_iff
  exact firstIn_congr fun _ => isSome_findMethod?_iff

theorem hasAttribute_iff_accessible {c attr : String} {access : AccessKind}
    (haccess : access ≠ .array) :
    t.hasAttribute c attr access = true ↔ t.Accessible c attr access := by
  rw [hasAttribute, Bool.or_eq_true, Bool.and_eq_true, Bool.or_eq_true, any_isPublic_iff,
    any_isPublic_iff, hasVirtualProperty_iff, bne_iff_ne]
  constructor
  · rintro (⟨hplain, hproperty⟩ | ⟨m, hm, hpublic⟩)
    · have hany : access = .any := by
        cases access with
        | any => rfl
        | method => exact absurd rfl hplain
        | array => exact absurd rfl haccess
      subst hany
      rcases hproperty with ⟨m, hm, hpublic⟩ | ⟨info, hreached, hmem⟩
      · exact .property (findProperty?_eq_some_iff.mp hm) hpublic
      · exact .virtual hreached hmem
    · obtain ⟨name, hname, hfirst⟩ := findSome?_accessors_eq_some_iff.mp hm
      exact .method hname hfirst hpublic
  · intro h
    cases h with
    | property hfirst hpublic =>
      exact .inl ⟨by decide, .inl ⟨_, findProperty?_eq_some_iff.mpr hfirst, hpublic⟩⟩
    | virtual hreached hmem => exact .inl ⟨by decide, .inr ⟨_, hreached, hmem⟩⟩
    | method hname hfirst hpublic =>
      exact .inr ⟨_, findSome?_accessors_eq_some_iff.mpr ⟨_, hname, hfirst⟩, hpublic⟩

theorem accessError?_classRef {c attr : String} {access : AccessKind} (haccess : access ≠ .array)
    (hknows : t.knows c = true) :
    t.accessError? (.classRef c) attr access = none ↔ t.hasAttribute c attr access = true := by
  rw [accessError?, if_neg haccess]
  show (if t.knows c && !t.hasAttribute c attr access then _ else none) = none ↔ _
  rw [hknows]
  cases t.hasAttribute c attr access <;> simp

theorem accessError?_nullable (t : ClassTable) (c attr : String) (access : AccessKind) :
    t.accessError? (.nullable (.classRef c)) attr access =
      t.accessError? (.classRef c) attr access :=
  rfl

/-- **The nearest declaration decides an access.**  A lineage lists each described type that is
reachable once, by the length of the shortest path to it, so the first type in it with any property
is a nearest one with it.  An attribute of a described class, nullable or not, is accepted by an
access other than an index exactly if the rules for reading it apply, which look at first
declarations. -/
theorem access_by_nearest_declaration (t : ClassTable) (c : String) :
    (∀ info, info ∈ t.lineage c ↔ t.Reached c info) ∧ (t.lineage c).Nodup ∧
    (∀ info, t.Reached c info →
      t.Steps (t.distanceTo c info) (normalizeTypeName c) info.key) ∧
    ((t.lineage c).Pairwise fun info other => t.distanceTo c info ≤ t.distanceTo c other) ∧
    (∀ (P : TypeInfo → Prop) (info other : TypeInfo), FirstIn P info (t.lineage c) →
      t.Reached c other → P other → t.distanceTo c info ≤ t.distanceTo c other) ∧
    (t.knows c = true → ∀ (declared : TypeExpr) (attr : String) (access : AccessKind),
      declared = .classRef c ∨ declared = .nullable (.classRef c) → access ≠ .array →
      (t.accessError? declared attr access = none ↔ t.Accessible c attr access)) := by
  refine ⟨fun _ => mem_lineage_iff, t.nodup_lineage c, fun _ => Reached.steps_distanceTo,
    t.pairwise_lineage c, fun _ _ _ => distanceTo_le_of_firstIn, ?_⟩
  intro hknows declared attr access hdeclared haccess
  have hclass : t.accessError? (.classRef c) attr access = none ↔ t.Accessible c attr access :=
    (accessError?_classRef haccess hknows).trans (hasAttribute_iff_accessible haccess)
  rcases hdeclared with rfl | rfl
  · exact hclass
  · rw [accessError?_nullable]
    exact hclass

/-- The title that a stamp hides stands nearer to a report than the one of a document, but the
method that serves the title is declared by documents only. -/
theorem access_by_nearest_declaration_documents :
    documents.knows "\\App\\Report" = true ∧ AccessKind.any ≠ .array ∧
      documents.accessError? (.nullable (.classRef "\\App\\Report")) "title" .any = none := by
  obtain ⟨hmem, hnodup, -, -, -, haccess⟩ :=
    access_by_nearest_declaration documents "\\App\\Report"
  have hknows : documents.knows "\\App\\Report" = true := by decide +kernel
  have hreached : documents.Reached "\\App\\Report" document :=
    ⟨"app\\document", .tail (.single documents_report_page) documents_page_document,
      by decide +kernel⟩
  have hnone : ∀ p ∈ documents.types, ¬ p.2.Declares (·.methods) (Member.IsCalled "title") := by
    decide +kernel
  have hone : ∀ p ∈ documents.types,
      p.2.Declares (·.methods) (Member.IsCalled ("get" ++ "title")) → p.2 = document := by
    decide +kernel
  have hdeclares : document.Declares (·.methods) (Member.IsCalled ("get" ++ "title")) := by
    decide +kernel
  obtain ⟨before, after, heq⟩ := List.append_of_mem ((hmem document).mpr hreached)
  refine ⟨hknows, by decide, (haccess hknows _ _ _ (.inr rfl) (by decide)).mpr ?_⟩
  have hname : FirstIn (fun name => ∃ info, documents.Reached "\\App\\Report" info ∧
        info.Declares (·.methods) (Member.IsCalled name))
      ("get" ++ "title") ["title", "get" ++ "title", "is" ++ "title", "has" ++ "title"] := by
    refine ⟨["title"], _, rfl, ⟨document, hreached, hdeclares⟩, ?_⟩
    rintro name hfront ⟨info, ⟨key, -, hget⟩, hinfo⟩
    rw [List.mem_singleton.mp hfront] at hinfo
    exact hnone _ (Assoc.mem_of_get? hget) hinfo
  have hfirst : documents.FirstDeclared "\\App\\Report" (·.methods)
      (Member.IsCalled ("get" ++ "title")) ⟨"getTitle", .pub⟩ := by
    refine ⟨document, ⟨before, after, heq, hdeclares, ?_⟩, [], [], rfl, by decide +kernel, nofun⟩
    intro info hbefore hinfo
    obtain ⟨key, -, hget⟩ := (hmem info).mp (heq ▸ List.mem_append_left _ hbefore)
    -- it would be the document, which the lineage lists once
    rw [heq, List.nodup_append] at hnodup
    have hsame : info = document := hone _ (Assoc.mem_of_get? hget) hinfo
    exact hnodup.2.2 info hbefore document List.mem_cons_self hsame
  exact .method hname hfirst rfl

end ClassTable

end TemplateContracts
