import Mathlib.Logic.Relation
import TemplateContracts.ClassTable.Hierarchy

/-!
# Subtypes and reachability

`ClassTable.lineage` and `ClassTable.isSubtype` are two loops over a queue of names.  Both take the
same names in the same order, and differ in what they give back and in when they stop.  Here that
order is a list of its own, and the list holds the keys that can be reached at all.

* `ClassTable.Inherits` : one step from a stored type to a parent or a trait;
* `ClassTable.searchOrder` : the keys that a search meets, each when it is met first;
* `ClassTable.Closed` : the invariant of a search, a seen key leads to seen or queued keys only;
* `ClassTable.SearchEnds` : the rules of the search for a key, with the number of its rounds;
* `ClassTable.mem_searchOrder_iff` : a search meets what is reachable from its queue;
* `ClassTable.isSubtype_iff_reachable` : **a type is a subtype of another one exactly if the other
  one is reachable**, and the search for it ends.
-/

namespace TemplateContracts.ClassTable

open Relation (ReflTransGen)

variable {t : ClassTable}

/-! ### Steps between keys -/

/-- `t.Inherits key key'` : the type stored under `key` has a parent or a trait whose key is
`key'`. -/
def Inherits (t : ClassTable) (key key' : String) : Prop :=
  ∃ info, t.types.get? key = some info ∧
    ∃ name, (name ∈ info.parents ∨ name ∈ info.traits) ∧ normalizeTypeName name = key'

/-- The names that a search goes on with behind a name: none if its type is not described. -/
def listed (t : ClassTable) (name : String) : List String :=
  ((t.describe? name).map TypeInfo.ancestors).getD []

theorem listed_of_some {name : String} {info : TypeInfo} (h : t.describe? name = some info) :
    t.listed name = info.ancestors := by
  rw [listed, h]
  rfl

theorem listed_of_none {name : String} (h : t.describe? name = none) : t.listed name = [] := by
  rw [listed, h]
  rfl

theorem inherits_iff_listed {name key' : String} :
    t.Inherits (normalizeTypeName name) key' ↔
      ∃ name' ∈ t.listed name, normalizeTypeName name' = key' := by
  constructor
  · rintro ⟨info, hinfo, name', hmem, hkey⟩
    rw [listed_of_some hinfo]
    exact ⟨name', List.mem_append.mpr hmem, hkey⟩
  · rintro ⟨name', hmem, hkey⟩
    cases hd : t.describe? name with
    | none =>
      rw [listed_of_none hd] at hmem
      cases hmem
    | some info =>
      rw [listed_of_some hd] at hmem
      exact ⟨info, hd, name', List.mem_append.mp hmem, hkey⟩

/-! ### The order of a search -/

/-- Taking a name with a new key from the queue makes the search smaller, although it may put
names at the end. -/
theorem expand_decreases {name : String} {queue seen : List String}
    (hs : normalizeTypeName name ∉ seen) :
    Prod.Lex (· < ·) (· < ·)
      (t.unseen (normalizeTypeName name :: seen), (queue ++ t.listed name).length)
      (t.unseen seen, (name :: queue).length) := by
  cases hd : t.describe? name with
  | some info => exact .left _ _ (t.unseen_cons_lt seen name hd hs)
  | none =>
    rw [listed_of_none hd, List.append_nil]
    rcases Nat.lt_or_eq_of_le (t.unseen_cons_le seen (normalizeTypeName name)) with h | h
    · exact .left _ _ h
    · rw [h]
      exact .right _ (Nat.lt_succ_self _)

/-- The keys that a search meets, in order, past the keys seen. -/
def searchOrder (t : ClassTable) (queue seen : List String) : List String :=
  match queue with
  | [] => []
  | name :: queue =>
    let key := normalizeTypeName name
    if _hs : key ∈ seen then t.searchOrder queue seen
    else key :: t.searchOrder (queue ++ t.listed name) (key :: seen)
termination_by (t.unseen seen, queue.length)
decreasing_by
  · exact .right _ (Nat.lt_succ_self _)
  · exact expand_decreases _hs

theorem reach_cons (t : ClassTable) (name : String) (queue seen : List String) :
    t.reach (name :: queue) seen =
      if normalizeTypeName name ∈ seen then t.reach queue seen
      else (t.describe? name).toList ++
        t.reach (queue ++ t.listed name) (normalizeTypeName name :: seen) := by
  rw [reach]
  by_cases hs : normalizeTypeName name ∈ seen
  · rw [dif_pos hs, if_pos hs]
  · rw [dif_neg hs, if_neg hs]
    split
    case h_1 info hd =>
      rw [listed_of_some hd, hd]
      rfl
    case h_2 hd =>
      rw [listed_of_none hd, hd, List.append_nil]
      rfl

theorem reaches_cons (t : ClassTable) (target name : String) (queue seen : List String) :
    t.reaches target (name :: queue) seen =
      if normalizeTypeName name = target then true
      else if normalizeTypeName name ∈ seen then t.reaches target queue seen
      else t.reaches target (queue ++ t.listed name) (normalizeTypeName name :: seen) := by
  rw [reaches]
  by_cases hkey : normalizeTypeName name = target
  · rw [if_pos hkey, if_pos hkey]
  · rw [if_neg hkey, if_neg hkey]
    by_cases hs : normalizeTypeName name ∈ seen
    · rw [dif_pos hs, if_pos hs]
    · rw [dif_neg hs, if_neg hs]
      split
      case h_1 info hd => rw [listed_of_some hd]
      case h_2 hd => rw [listed_of_none hd, List.append_nil]

/-- The types of a search are those stored under the keys that it meets. -/
theorem reach_eq_filterMap (t : ClassTable) (queue seen : List String) :
    t.reach queue seen = (t.searchOrder queue seen).filterMap t.types.get? := by
  induction queue, seen using searchOrder.induct t with
  | case1 seen => simp [reach, searchOrder]
  | case2 seen name queue key hs ih =>
    rw [reach_cons, if_pos hs, searchOrder, dif_pos hs, ih]
  | case3 seen name queue key hs ih =>
    rw [reach_cons, if_neg hs, searchOrder, dif_neg hs, ih]
    show (t.types.get? key).toList ++ _ = _
    cases hget : t.types.get? key with
    | none => rw [List.filterMap_cons_none hget]; rfl
    | some info => rw [List.filterMap_cons_some hget]; rfl

/-- The search for a key finds it exactly if the key is met. -/
theorem reaches_iff_mem {target : String} {queue seen : List String} (h : target ∉ seen) :
    t.reaches target queue seen = true ↔ target ∈ t.searchOrder queue seen := by
  induction queue, seen using searchOrder.induct t with
  | case1 seen => simp [reaches, searchOrder]
  | case2 seen name queue key hs ih =>
    have hne : key ≠ target := fun heq => h (heq ▸ hs)
    rw [reaches_cons, if_neg hne, if_pos hs, searchOrder, dif_pos hs, ih h]
  | case3 seen name queue key hs ih =>
    rw [reaches_cons, searchOrder, dif_neg hs, List.mem_cons]
    by_cases hkey : key = target
    · rw [if_pos hkey]
      exact ⟨fun _ => .inl hkey.symm, fun _ => rfl⟩
    · have hnew : target ∉ key :: seen := List.not_mem_cons_of_ne_of_not_mem (Ne.symm hkey) h
      rw [if_neg hkey, if_neg hs, ih hnew]
      exact ⟨.inr, fun hmem => hmem.resolve_left (Ne.symm hkey)⟩

/-! ### What a search meets -/

/-- Every step from a seen key leads to a seen key or to one that waits in the queue. -/
def Closed (t : ClassTable) (queue seen : List String) : Prop :=
  ∀ key ∈ seen, ∀ key', t.Inherits key key' →
    key' ∈ seen ∨ key' ∈ queue.map normalizeTypeName

theorem closed_nil (t : ClassTable) (queue : List String) : t.Closed queue [] :=
  fun _ h => nomatch h

theorem Closed.skip {name : String} {queue seen : List String} (h : t.Closed (name :: queue) seen)
    (hs : normalizeTypeName name ∈ seen) : t.Closed queue seen := by
  intro key hkey key' hstep
  rcases h key hkey key' hstep with hseen | hqueue
  · exact .inl hseen
  · rcases List.mem_cons.mp hqueue with rfl | hqueue
    · exact .inl hs
    · exact .inr hqueue

theorem Closed.expand {name : String} {queue seen : List String}
    (h : t.Closed (name :: queue) seen) :
    t.Closed (queue ++ t.listed name) (normalizeTypeName name :: seen) := by
  intro key hkey key' hstep
  rw [List.map_append, List.mem_append]
  rcases List.mem_cons.mp hkey with rfl | hkey
  · obtain ⟨name', hmem, rfl⟩ := inherits_iff_listed.mp hstep
    exact .inr (.inr (List.mem_map_of_mem hmem))
  · rcases h key hkey key' hstep with hseen | hqueue
    · exact .inl (List.mem_cons_of_mem _ hseen)
    · rcases List.mem_cons.mp hqueue with rfl | hqueue
      · exact .inl List.mem_cons_self
      · exact .inr (.inl hqueue)

/-- A path that starts at a seen or queued key and leaves the seen keys does so through the
queue. -/
theorem Closed.exists_queued {queue seen : List String} (h : t.Closed queue seen)
    {start key : String} (hstart : start ∈ seen ∨ start ∈ queue.map normalizeTypeName)
    (hpath : ReflTransGen t.Inherits start key) (hnew : key ∉ seen) :
    ∃ name ∈ queue, ReflTransGen t.Inherits (normalizeTypeName name) key := by
  -- the induction peels off the first step, so that `start` moves along the path
  induction hpath using ReflTransGen.head_induction_on with
  | refl =>
    obtain ⟨name, hmem, rfl⟩ := List.mem_map.mp (hstart.resolve_left hnew)
    exact ⟨name, hmem, .refl⟩
  | head hstep hrest ih =>
    rcases hstart with hseen | hqueue
    · exact ih (h _ hseen _ hstep)
    · obtain ⟨name, hmem, rfl⟩ := List.mem_map.mp hqueue
      exact ⟨name, hmem, .head hstep hrest⟩

/-- **A search meets exactly the new keys that are reachable from its queue.** -/
theorem mem_searchOrder_iff {queue seen : List String} (h : t.Closed queue seen) {key : String} :
    key ∈ t.searchOrder queue seen ↔
      key ∉ seen ∧ ∃ name ∈ queue, ReflTransGen t.Inherits (normalizeTypeName name) key := by
  induction queue, seen using searchOrder.induct t with
  | case1 seen => simp [searchOrder]
  | case2 seen name queue first hs ih =>
    rw [searchOrder, dif_pos hs, ih (h.skip hs)]
    refine and_congr_right fun hnew => ⟨?_, ?_⟩
    · rintro ⟨name', hmem, hpath⟩
      exact ⟨name', List.mem_cons_of_mem _ hmem, hpath⟩
    · rintro ⟨name', hmem, hpath⟩
      rcases List.mem_cons.mp hmem with rfl | hmem
      · exact (h.skip hs).exists_queued (.inl hs) hpath hnew
      · exact ⟨name', hmem, hpath⟩
  | case3 seen name queue first hs ih =>
    rw [searchOrder, dif_neg hs, List.mem_cons, ih h.expand]
    constructor
    · rintro (rfl | ⟨hnew, name', hmem, hpath⟩)
      · exact ⟨hs, name, List.mem_cons_self, .refl⟩
      · refine ⟨fun hseen => hnew (List.mem_cons_of_mem _ hseen), ?_⟩
        rcases List.mem_append.mp hmem with hmem | hmem
        · exact ⟨name', List.mem_cons_of_mem _ hmem, hpath⟩
        · have hstep : t.Inherits (normalizeTypeName name) (normalizeTypeName name') :=
            inherits_iff_listed.mpr ⟨name', hmem, rfl⟩
          exact ⟨name, List.mem_cons_self, .head hstep hpath⟩
    · rintro ⟨hnew, name', hmem, hpath⟩
      by_cases hkey : key = first
      · exact .inl hkey
      · have hnew' : key ∉ first :: seen := List.not_mem_cons_of_ne_of_not_mem hkey hnew
        have hstart : normalizeTypeName name' ∈ first :: seen ∨
            normalizeTypeName name' ∈ (queue ++ t.listed name).map normalizeTypeName := by
          rcases List.mem_cons.mp hmem with rfl | hmem
          · exact .inl List.mem_cons_self
          · exact .inr (List.mem_map_of_mem (List.mem_append_left _ hmem))
        exact .inr ⟨hnew', h.expand.exists_queued hstart hpath hnew'⟩

/-- A search meets no key twice. -/
theorem nodup_searchOrder (t : ClassTable) (queue : List String) :
    (t.searchOrder queue []).Nodup := by
  -- the keys that are met behind a key are not that key, because it has been seen by then
  suffices h : ∀ seen, t.Closed queue seen → (t.searchOrder queue seen).Nodup from
    h [] (t.closed_nil queue)
  intro seen
  induction queue, seen using searchOrder.induct t with
  | case1 seen => simp [searchOrder]
  | case2 seen name queue key hs ih =>
    intro h
    rw [searchOrder, dif_pos hs]
    exact ih (h.skip hs)
  | case3 seen name queue key hs ih =>
    intro h
    rw [searchOrder, dif_neg hs, List.nodup_cons]
    refine ⟨fun hmem => ?_, ih h.expand⟩
    exact ((mem_searchOrder_iff h.expand).mp hmem).1 List.mem_cons_self

/-! ### Subtypes and lineages -/

theorem mem_searchOrder_singleton {a key : String} :
    key ∈ t.searchOrder [a] [] ↔ ReflTransGen t.Inherits (normalizeTypeName a) key := by
  rw [mem_searchOrder_iff (t.closed_nil [a])]
  constructor
  · rintro ⟨-, name, hmem, hpath⟩
    rwa [List.mem_singleton.mp hmem] at hpath
  · intro hpath
    exact ⟨List.not_mem_nil, a, List.mem_singleton_self a, hpath⟩

theorem isSubtype_iff (t : ClassTable) (a b : String) :
    t.isSubtype a b = true ↔
      ReflTransGen t.Inherits (normalizeTypeName a) (normalizeTypeName b) := by
  rw [isSubtype, reaches_iff_mem List.not_mem_nil, mem_searchOrder_singleton]

theorem isSubtype_refl (t : ClassTable) (a : String) : t.isSubtype a a = true :=
  (t.isSubtype_iff a a).mpr .refl

theorem isSubtype_trans {a b c : String} (hab : t.isSubtype a b = true)
    (hbc : t.isSubtype b c = true) : t.isSubtype a c = true := by
  rw [isSubtype_iff] at hab hbc ⊢
  exact hab.trans hbc

theorem key_of_get? {key : String} {info : TypeInfo} (h : t.types.get? key = some info) :
    info.key = key :=
  (t.keyed _ (Assoc.mem_of_get? h)).symm

/-- A described type that is reachable from a name. -/
def Reached (t : ClassTable) (a : String) (info : TypeInfo) : Prop :=
  ∃ key, ReflTransGen t.Inherits (normalizeTypeName a) key ∧ t.types.get? key = some info

theorem mem_lineage_iff {a : String} {info : TypeInfo} :
    info ∈ t.lineage a ↔ t.Reached a info := by
  rw [lineage, reach_eq_filterMap, List.mem_filterMap]
  exact exists_congr fun key => and_congr_left fun _ => mem_searchOrder_singleton

/-- The description of a described type stands in the lineages of its subtypes. -/
theorem mem_lineage_iff_isSubtype {a b : String} {info : TypeInfo}
    (h : t.describe? b = some info) : info ∈ t.lineage a ↔ t.isSubtype a b = true := by
  rw [mem_lineage_iff, isSubtype_iff]
  constructor
  · rintro ⟨key, hpath, hget⟩
    -- a description is stored under one key only, its own
    rwa [← key_of_get? hget, key_of_get? h] at hpath
  · intro hpath
    exact ⟨_, hpath, h⟩

/-! ### The rounds of a search -/

/-- `t.SearchEnds target queue seen rounds answer` : the search for a key ends, with an answer,
after a number of rounds, each of which takes one name from the queue. -/
inductive SearchEnds (t : ClassTable) (target : String) :
    List String → List String → Nat → Bool → Prop where
  | exhausted {seen : List String} : SearchEnds t target [] seen 0 false
  | found {name : String} {queue seen : List String} :
      normalizeTypeName name = target → SearchEnds t target (name :: queue) seen 1 true
  | skipped {name : String} {queue seen : List String} {rounds : Nat} {answer : Bool} :
      normalizeTypeName name ≠ target → normalizeTypeName name ∈ seen →
      SearchEnds t target queue seen rounds answer →
      SearchEnds t target (name :: queue) seen (rounds + 1) answer
  | undescribed {name : String} {queue seen : List String} {rounds : Nat} {answer : Bool} :
      normalizeTypeName name ≠ target → normalizeTypeName name ∉ seen → t.describe? name = none →
      SearchEnds t target queue (normalizeTypeName name :: seen) rounds answer →
      SearchEnds t target (name :: queue) seen (rounds + 1) answer
  | expanded {name : String} {queue seen : List String} {rounds : Nat} {answer : Bool}
      {info : TypeInfo} :
      normalizeTypeName name ≠ target → normalizeTypeName name ∉ seen →
      t.describe? name = some info →
      SearchEnds t target (queue ++ info.parents ++ info.traits) (normalizeTypeName name :: seen)
        rounds answer →
      SearchEnds t target (name :: queue) seen (rounds + 1) answer

/-- The rules give no other answer than the function. -/
theorem SearchEnds.answer_eq {target : String} {queue seen : List String} {rounds : Nat}
    {answer : Bool} (h : t.SearchEnds target queue seen rounds answer) :
    answer = t.reaches target queue seen := by
  induction h with
  | exhausted => rw [reaches]
  | found hkey => rw [reaches_cons, if_pos hkey]
  | skipped hkey hs _ ih => rw [reaches_cons, if_neg hkey, if_pos hs, ih]
  | undescribed hkey hs hd _ ih =>
    rw [reaches_cons, if_neg hkey, if_neg hs, listed_of_none hd, List.append_nil, ih]
  | expanded hkey hs hd _ ih =>
    rw [reaches_cons, if_neg hkey, if_neg hs, listed_of_some hd, TypeInfo.ancestors,
      ← List.append_assoc, ih]

theorem SearchEnds.behind {target name : String} {queue seen : List String} {rounds : Nat}
    {answer : Bool} (hkey : normalizeTypeName name ≠ target) (hs : normalizeTypeName name ∉ seen)
    (h : t.SearchEnds target (queue ++ t.listed name) (normalizeTypeName name :: seen) rounds
      answer) : t.SearchEnds target (name :: queue) seen (rounds + 1) answer := by
  cases hd : t.describe? name with
  | none =>
    rw [listed_of_none hd, List.append_nil] at h
    exact .undescribed hkey hs hd h
  | some info =>
    rw [listed_of_some hd, TypeInfo.ancestors, ← List.append_assoc] at h
    exact .expanded hkey hs hd h

/-- The names that the types past the keys seen list. -/
def namesBeyond (types : Assoc TypeInfo) (seen : List String) : List String :=
  (types.filter fun p => p.1 ∉ seen).flatMap fun p => p.2.ancestors

theorem namesBeyond_nil (types : Assoc TypeInfo) :
    namesBeyond types [] = types.flatMap fun p => p.2.ancestors := by
  have hall : (types.filter fun p => p.1 ∉ ([] : List String)) = types :=
    List.filter_eq_self.mpr fun p _ => decide_eq_true List.not_mem_nil
  rw [namesBeyond, hall]

theorem namesBeyond_cons_of_mem {p : String × TypeInfo} {seen : List String} (h : p.1 ∈ seen)
    (types : Assoc TypeInfo) : namesBeyond (p :: types) seen = namesBeyond types seen := by
  rw [namesBeyond, List.filter_cons_of_neg (by simpa using h), namesBeyond]

theorem namesBeyond_cons_of_not_mem {p : String × TypeInfo} {seen : List String} (h : p.1 ∉ seen)
    (types : Assoc TypeInfo) :
    namesBeyond (p :: types) seen = p.2.ancestors ++ namesBeyond types seen := by
  rw [namesBeyond, List.filter_cons_of_pos (by simpa using h), List.flatMap_cons, namesBeyond]

/-- A type that is expanded takes the names that it lists out of those still to come. -/
theorem length_listed_add_le (types : Assoc TypeInfo) {key : String} {seen : List String}
    (hs : key ∉ seen) :
    (((types.get? key).map TypeInfo.ancestors).getD []).length +
      (namesBeyond types (key :: seen)).length ≤ (namesBeyond types seen).length := by
  induction types with
  | nil => exact Nat.le_refl 0
  | cons p rest ih =>
    obtain ⟨k, info⟩ := p
    rw [Assoc.get?]
    by_cases hk : k = key
    · subst hk
      rw [if_pos rfl, namesBeyond_cons_of_mem List.mem_cons_self, namesBeyond_cons_of_not_mem hs,
        List.length_append]
      show info.ancestors.length + (namesBeyond rest (k :: seen)).length ≤
        info.ancestors.length + (namesBeyond rest seen).length
      omega
    · rw [if_neg hk]
      by_cases hseen : k ∈ seen
      · rw [namesBeyond_cons_of_mem (List.mem_cons_of_mem _ hseen), namesBeyond_cons_of_mem hseen]
        exact ih
      · have hnew : k ∉ key :: seen := List.not_mem_cons_of_ne_of_not_mem hk hseen
        rw [namesBeyond_cons_of_not_mem hnew, namesBeyond_cons_of_not_mem hseen,
          List.length_append, List.length_append]
        omega

/-- A search ends.  Each of its rounds takes a name from the queue, and the names that come to the
queue are those listed by types that were not seen before. -/
theorem exists_searchEnds (t : ClassTable) (target : String) (queue seen : List String) :
    ∃ rounds ≤ queue.length + (namesBeyond t.types seen).length,
      t.SearchEnds target queue seen rounds (t.reaches target queue seen) := by
  induction queue, seen using searchOrder.induct t with
  | case1 seen =>
    rw [reaches]
    exact ⟨0, Nat.zero_le _, .exhausted⟩
  | case2 seen name queue key hs ih =>
    rw [reaches_cons, List.length_cons]
    by_cases hkey : key = target
    · rw [if_pos hkey]
      exact ⟨1, by omega, .found hkey⟩
    · obtain ⟨rounds, hle, hends⟩ := ih
      rw [if_neg hkey, if_pos hs]
      exact ⟨rounds + 1, by omega, .skipped hkey hs hends⟩
  | case3 seen name queue key hs ih =>
    rw [reaches_cons, List.length_cons]
    by_cases hkey : key = target
    · rw [if_pos hkey]
      exact ⟨1, by omega, .found hkey⟩
    · obtain ⟨rounds, hle, hends⟩ := ih
      have hnames : (t.listed name).length + (namesBeyond t.types (key :: seen)).length ≤
          (namesBeyond t.types seen).length := length_listed_add_le t.types hs
      rw [List.length_append] at hle
      rw [if_neg hkey, if_neg hs]
      exact ⟨rounds + 1, by omega, .behind hkey hs hends⟩

/-- **A type is a subtype of another one exactly if the other one is reachable** from it by steps
to parents and traits.  The search ends with this answer and no other, after at most one round more
than the table lists parents and traits.  So every type is a subtype of itself, subtypes of subtypes
are subtypes, and the subtypes of a described type are the types that have its description in their
lineage, or its name. -/
theorem isSubtype_iff_reachable (t : ClassTable) :
    (∀ a b, t.isSubtype a b = true ↔
      ReflTransGen t.Inherits (normalizeTypeName a) (normalizeTypeName b)) ∧
    (∀ a b, ∃ rounds ≤ (t.types.flatMap fun p => p.2.ancestors).length + 1, ∀ answer,
      t.SearchEnds (normalizeTypeName b) [a] [] rounds answer ↔ answer = t.isSubtype a b) ∧
    (∀ a, t.isSubtype a a = true) ∧
    (∀ a b c, t.isSubtype a b = true → t.isSubtype b c = true → t.isSubtype a c = true) ∧
    ∀ a b info, t.describe? b = some info →
      (t.isSubtype a b = true ↔
        info ∈ t.lineage a ∨ normalizeTypeName a = normalizeTypeName b) := by
  refine ⟨t.isSubtype_iff, ?_, t.isSubtype_refl, fun a b c => isSubtype_trans, ?_⟩
  · intro a b
    obtain ⟨rounds, hle, hends⟩ := t.exists_searchEnds (normalizeTypeName b) [a] []
    rw [namesBeyond_nil, List.length_singleton, Nat.add_comm] at hle
    refine ⟨rounds, hle, fun answer => ⟨SearchEnds.answer_eq, ?_⟩⟩
    rintro rfl
    exact hends
  · intro a b info hd
    rw [mem_lineage_iff_isSubtype hd]
    refine ⟨.inl, fun h => h.elim id fun hkey => ?_⟩
    rw [isSubtype_iff, hkey]

/-! ### A hierarchy that runs in a circle -/

def report : TypeInfo :=
  { name := "App\\Report", parents := ["\\App\\Page"], traits := ["App\\Stamped"] }

def page : TypeInfo := { name := "App\\Page", parents := ["app\\DOCUMENT", "Countable"] }

def stamped : TypeInfo :=
  { name := "App\\Stamped", kind := .traitType, properties := [⟨"title", .priv⟩] }

def document : TypeInfo :=
  { name := "App\\Document", parents := ["App\\Report", "Stringable"],
    properties := [⟨"title", .pub⟩], methods := [⟨"getTitle", .pub⟩] }

/-- A report is a page, a page is a document and a document is a report. -/
def documents : ClassTable := (((empty.insert report).insert page).insert stamped).insert document

theorem documents_report_page : documents.Inherits "app\\report" "app\\page" :=
  ⟨report, by decide +kernel, "\\App\\Page", .inl (by decide), by decide +kernel⟩

theorem documents_page_document : documents.Inherits "app\\page" "app\\document" :=
  ⟨page, by decide +kernel, "app\\DOCUMENT", .inl (by decide), by decide +kernel⟩

theorem documents_document_stringable : documents.Inherits "app\\document" "stringable" :=
  ⟨document, by decide +kernel, "Stringable", .inl (by decide), by decide +kernel⟩

/-- Reports convert to text, because documents do by a type that is not described. -/
theorem isSubtype_iff_reachable_documents :
    documents.isSubtype "\\App\\Report" "App\\Document" = true ∧
      documents.isSubtype "App\\Document" "Stringable" = true ∧
      documents.isSubtype "\\App\\Report" "Stringable" = true ∧
      documents.describe? "App\\Document" = some document ∧
      document ∈ documents.lineage "\\App\\Report" := by
  obtain ⟨hiff, -, -, htrans, hlineage⟩ := isSubtype_iff_reachable documents
  have hdocument : documents.isSubtype "\\App\\Report" "App\\Document" = true :=
    (hiff _ _).mpr (.tail (.single documents_report_page) documents_page_document)
  have hstringable : documents.isSubtype "App\\Document" "Stringable" = true :=
    (hiff _ _).mpr (.single documents_document_stringable)
  have hdescribed : documents.describe? "App\\Document" = some document := by decide +kernel
  refine ⟨hdocument, hstringable, htrans _ _ _ hdocument hstringable, hdescribed, ?_⟩
  exact ((hlineage _ _ _ hdescribed).mp hdocument).resolve_right (by decide +kernel)

end TemplateContracts.ClassTable
