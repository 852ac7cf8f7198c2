import TemplateContracts.ClassTable.Dump
import TemplateContracts.Proofs.SubtypeReachability

/-!
# Loading a dump of classes

The types of a dump are added one by one, each under its key, and the first key that comes a second
time spoils the dump.  Adding goes on from a table that may hold types already, so what is said
about a list of types is said about a table in front of it: the table admits the list if all keys
are new and no two of them are the same.

Nothing that is asked of a table depends on the order of its entries.  Every question goes through
the lookup of a key, the walks along parents and traits as well.

* `ClassTable.Admits` : a list of types can be added to a table;
* `ClassTable.addAll_eq_ok_iff`, `ClassTable.addAll_eq_error_iff` : when adding succeeds, what it
  gives, and which type is named when it fails;
* `ClassTable.AnswersLike` : two tables answer every question alike;
* `ClassTable.ofDump_all_or_nothing` : **a dump is loaded as a whole or not at all, and the order of
  its types does not matter**.
-/

namespace TemplateContracts.ClassTable

open scoped List

/-! ### Adding types one by one -/

/-- The keys of the types are new to the table, and pairwise distinct. -/
structure Admits (t : ClassTable) (infos : List TypeInfo) : Prop where
  fresh : ∀ info ∈ infos, t.types.get? info.key = none
  nodup : (infos.map TypeInfo.key).Nodup

variable {t t' : ClassTable} {info : TypeInfo} {infos : List TypeInfo}

theorem get?_insert (t : ClassTable) (info : TypeInfo) (key : String) :
    (t.insert info).types.get? key = if key = info.key then some info else t.types.get? key :=
  Assoc.get?_set t.types info.key key info

theorem admits_nil (t : ClassTable) : t.Admits [] :=
  ⟨fun _ h => absurd h List.not_mem_nil, List.nodup_nil⟩

theorem admits_empty_iff : empty.Admits infos ↔ (infos.map TypeInfo.key).Nodup :=
  ⟨Admits.nodup, fun h => ⟨fun _ _ => rfl, h⟩⟩

/-- A list is added by adding its first type, and the others to the table with that type. -/
theorem admits_cons_iff :
    t.Admits (info :: infos) ↔ t.types.get? info.key = none ∧ (t.insert info).Admits infos := by
  constructor
  · rintro ⟨hfresh, hnodup⟩
    rw [List.map_cons, List.nodup_cons] at hnodup
    refine ⟨hfresh info List.mem_cons_self, ?_, hnodup.2⟩
    intro other hother
    have hne : other.key ≠ info.key := by
      intro heq
      exact hnodup.1 (heq ▸ List.mem_map_of_mem hother)
    rw [get?_insert, if_neg hne]
    exact hfresh other (List.mem_cons_of_mem info hother)
  · rintro ⟨hnew, hfresh, hnodup⟩
    have hne : ∀ other ∈ infos, other.key ≠ info.key ∧ t.types.get? other.key = none := by
      intro other hother
      have hget := hfresh other hother
      rw [get?_insert] at hget
      split at hget
      · cases hget
      · next hkey => exact ⟨hkey, hget⟩
    refine ⟨?_, ?_⟩
    · exact List.forall_mem_cons.mpr ⟨hnew, fun other hother => (hne other hother).2⟩
    · rw [List.map_cons, List.nodup_cons]
      refine ⟨fun hmem => ?_, hnodup⟩
      obtain ⟨other, hother, hkey⟩ := List.mem_map.mp hmem
      exact (hne other hother).1 hkey

theorem addAll_cons_of_new (h : t.types.get? info.key = none) (infos : List TypeInfo) :
    t.addAll (info :: infos) = (t.insert info).addAll infos := by
  simp [addAll, Assoc.has, h]

theorem addAll_cons_of_known {old : TypeInfo} (h : t.types.get? info.key = some old)
    (infos : List TypeInfo) : t.addAll (info :: infos) = .error (.duplicate info.name) := by
  simp [addAll, Assoc.has, h]

/-- Adding a list succeeds exactly if the table admits it, and then is adding its types one after
the other. -/
theorem addAll_eq_ok_iff :
    t.addAll infos = .ok t' ↔ t.Admits infos ∧ infos.foldl insert t = t' := by
  induction infos generalizing t with
  | nil =>
    show Except.ok t = .ok t' ↔ _ ∧ t = t'
    simp [admits_nil]
  | cons info rest ih =>
    rw [admits_cons_iff, List.foldl_cons]
    cases hget : t.types.get? info.key with
    | none =>
      rw [addAll_cons_of_new hget, ih]
      simp
    | some old =>
      rw [addAll_cons_of_known hget]
      simp

/-- Adding a list fails exactly at the first type whose key the table has or an earlier type of the
list has, and names that type as it is written. -/
theorem addAll_eq_error_iff {e : DumpError} :
    t.addAll infos = .error e ↔
      ∃ before info behind, infos = before ++ info :: behind ∧ t.Admits before ∧
        (before.foldl insert t).types.get? info.key ≠ none ∧ e = .duplicate info.name := by
  induction infos generalizing t with
  | nil =>
    constructor
    · intro h
      cases h
    · rintro ⟨before, info, behind, h, -⟩
      exact absurd h.symm (List.append_ne_nil_of_right_ne_nil before (List.cons_ne_nil _ _))
  | cons first rest ih =>
    cases hget : t.types.get? first.key with
    | none =>
      rw [addAll_cons_of_new hget, ih]
      constructor
      · rintro ⟨before, info, behind, rfl, hadmits, hknown, he⟩
        exact ⟨first :: before, info, behind, rfl, admits_cons_iff.mpr ⟨hget, hadmits⟩, hknown, he⟩
      · rintro ⟨before, info, behind, hsplit, hadmits, hknown, he⟩
        cases before with
        | nil =>
          cases hsplit
          exact absurd hget hknown
        | cons other before =>
          cases hsplit
          exact ⟨before, info, behind, rfl, (admits_cons_iff.mp hadmits).2, hknown, he⟩
    | some old =>
      rw [addAll_cons_of_known hget]
      constructor
      · intro h
        cases h
        refine ⟨[], first, rest, rfl, t.admits_nil, ?_, rfl⟩
        rw [List.foldl_nil, hget]
        exact Option.some_ne_none old
      · rintro ⟨before, info, behind, hsplit, hadmits, -, rfl⟩
        cases before with
        | nil =>
          cases hsplit
          rfl
        | cons other before =>
          cases hsplit
          rw [(admits_cons_iff.mp hadmits).1] at hget
          cases hget

/-- A table with types added to it describes these and what it described before. -/
theorem Admits.get?_foldl_insert (h : t.Admits infos) {key : String} :
    (infos.foldl insert t).types.get? key = some info ↔
      t.types.get? key = some info ∨ info ∈ infos ∧ info.key = key := by
  induction infos generalizing t with
  | nil => simp
  | cons first rest ih =>
    obtain ⟨hnew, hrest⟩ := admits_cons_iff.mp h
    rw [List.foldl_cons, ih hrest, get?_insert, List.mem_cons]
    by_cases hkey : key = first.key
    · subst hkey
      have hself : some first = some info ↔ info = first ∧ info.key = first.key := by
        constructor
        · intro he
          cases he
          exact ⟨rfl, rfl⟩
        · rintro ⟨rfl, -⟩
          rfl
      rw [if_pos rfl, hnew, hself, or_and_right]
      simp
    · have hne : ¬(info = first ∧ info.key = key) := by
        rintro ⟨rfl, he⟩
        exact hkey he.symm
      rw [if_neg hkey, or_and_right, or_iff_right hne]

theorem get?_foldl_insert_empty (h : (infos.map TypeInfo.key).Nodup) {key : String} :
    (infos.foldl insert empty).types.get? key = some info ↔ info ∈ infos ∧ info.key = key := by
  rw [(admits_empty_iff.mpr h).get?_foldl_insert]
  exact or_iff_right nofun

/-! ### Questions about a table -/

/-- Two tables answer every question alike. -/
structure AnswersLike (t t' : ClassTable) : Prop where
  describe? : ∀ name, t.describe? name = t'.describe? name
  lineage : ∀ name, t.lineage name = t'.lineage name
  isSubtype : ∀ name target, t.isSubtype name target = t'.isSubtype name target
  findProperty? : ∀ className name, t.findProperty? className name = t'.findProperty? className name
  findMethod? : ∀ className name, t.findMethod? className name = t'.findMethod? className name
  hasConstant : ∀ name, t.hasConstant name = t'.hasConstant name

section Lookups

variable (h : ∀ key, t.types.get? key = t'.types.get? key)
include h

theorem listed_congr (name : String) : t.listed name = t'.listed name := by
  rw [listed, listed, describe?, describe?, h]

theorem reach_congr (queue seen : List String) : t.reach queue seen = t'.reach queue seen := by
  -- the search of the first table decides how often a name is passed by or expanded
  induction queue, seen using searchOrder.induct t with
  | case1 seen => rw [reach, reach]
  | case2 seen name queue key hs ih => rw [reach_cons, reach_cons, if_pos hs, if_pos hs, ih]
  | case3 seen name queue key hs ih =>
    have hdescribe : t.describe? name = t'.describe? name := h key
    rw [reach_cons, reach_cons, if_neg hs, if_neg hs, ih, listed_congr h, hdescribe]

theorem reaches_congr (target : String) (queue seen : List String) :
    t.reaches target queue seen = t'.reaches target queue seen := by
  induction queue, seen using searchOrder.induct t with
  | case1 seen => rw [reaches, reaches]
  | case2 seen name queue key hs ih =>
    rw [reaches_cons, reaches_cons, if_pos hs, if_pos hs, ih]
  | case3 seen name queue key hs ih =>
    rw [reaches_cons, reaches_cons, if_neg hs, if_neg hs, ih, listed_congr h]

/-- What a table answers depends on the lookup of keys and on which constants there are. -/
theorem answersLike_of_get? (hconstants : ∀ c, c ∈ t.constants ↔ c ∈ t'.constants) :
    t.AnswersLike t' := by
  have hdescribe : ∀ name, t.describe? name = t'.describe? name := fun name => h _
  have hlineage : ∀ name, t.lineage name = t'.lineage name := fun name => reach_congr h [name] []
  refine ⟨hdescribe, hlineage, ?_, ?_, ?_, ?_⟩
  · exact fun name target => reaches_congr h _ [name] []
  · intro className name
    rw [findProperty?, findProperty?, hlineage]
  · intro className name
    rw [findMethod?, findMethod?, hlineage]
  · intro name
    have hglobal : t.constants.contains (trimBackslashes name)
        = t'.constants.contains (trimBackslashes name) := by
      rw [Bool.eq_iff_iff, List.contains_iff_mem, List.contains_iff_mem]
      exact hconstants _
    simp only [hasConstant, hdescribe, hglobal]

end Lookups

/-! ### Dumps -/

/-- The table of a dump whose types and constants are added one by one. -/
def ofParts (d : Dump) : ClassTable :=
  d.constants.foldl addConstant (d.types.foldl insert empty)

theorem types_foldl_addConstant (t : ClassTable) (names : List String) :
    (names.foldl addConstant t).types = t.types := by
  induction names generalizing t with
  | nil => rfl
  | cons name rest ih => exact ih (t.addConstant name)

theorem constants_foldl_addConstant (t : ClassTable) (names : List String) :
    (names.foldl addConstant t).constants = t.constants ++ names := by
  induction names generalizing t with
  | nil => exact (List.append_nil _).symm
  | cons name rest ih =>
    rw [List.foldl_cons, ih, addConstant, List.append_assoc, List.singleton_append]

theorem constants_foldl_insert (t : ClassTable) (infos : List TypeInfo) :
    (infos.foldl insert t).constants = t.constants := by
  induction infos generalizing t with
  | nil => rfl
  | cons info rest ih => exact ih (t.insert info)

theorem constants_ofParts (d : Dump) : (ofParts d).constants = d.constants := by
  rw [ofParts, constants_foldl_addConstant, constants_foldl_insert]
  rfl

theorem eq_of_types_of_constants (ht : t.types = t'.types) (hc : t.constants = t'.constants) :
    t = t' := by
  cases t
  cases t'
  cases ht
  cases hc
  rfl

theorem ofDump_eq_ok_iff {d : Dump} :
    ofDump d = .ok t ↔ (d.types.map TypeInfo.key).Nodup ∧ t = ofParts d := by
  have hparts : ∀ added : ClassTable, d.types.foldl insert empty = added →
      { added with constants := d.constants } = ofParts d := by
    rintro added rfl
    refine eq_of_types_of_constants ?_ (constants_ofParts d).symm
    exact (types_foldl_addConstant (d.types.foldl insert empty) d.constants).symm
  rw [ofDump]
  cases hadd : empty.addAll d.types with
  | ok added =>
    obtain ⟨hadmits, hadded⟩ := addAll_eq_ok_iff.mp hadd
    have hloaded : (Except.ok added : Except DumpError ClassTable).map
        (fun t => { t with constants := d.constants }) = .ok (ofParts d) :=
      congrArg Except.ok (hparts added hadded)
    rw [hloaded, Except.ok.injEq]
    exact ⟨fun h => ⟨hadmits.nodup, h.symm⟩, fun h => h.2.symm⟩
  | error e =>
    show Except.error _ = .ok t ↔ _
    refine ⟨nofun, fun h => ?_⟩
    rw [addAll_eq_ok_iff.mpr ⟨admits_empty_iff.mpr h.1, rfl⟩] at hadd
    cases hadd

theorem ofDump_eq_error_iff {d : Dump} {e : DumpError} :
    ofDump d = .error e ↔
      ∃ before info behind, d.types = before ++ info :: behind ∧
        (before.map TypeInfo.key).Nodup ∧ info.key ∈ before.map TypeInfo.key ∧
        e = .duplicate info.name := by
  have hsame : ofDump d = .error e ↔ empty.addAll d.types = .error e := by
    rw [ofDump]
    cases empty.addAll d.types <;> simp [Except.map]
  rw [hsame, addAll_eq_error_iff]
  refine exists_congr fun before => exists_congr fun info => exists_congr fun behind => ?_
  rw [admits_empty_iff]
  refine and_congr_right fun _ => and_congr_right fun hnodup => and_congr_left fun _ => ?_
  rw [Option.ne_none_iff_exists', List.mem_map]
  simp only [get?_foldl_insert_empty hnodup]

/-- What a loaded dump describes. -/
theorem describe?_ofParts {d : Dump} (h : (d.types.map TypeInfo.key).Nodup) {name : String} :
    (ofParts d).describe? name = some info ↔
      info ∈ d.types ∧ info.key = normalizeTypeName name := by
  rw [describe?, ofParts, types_foldl_addConstant, get?_foldl_insert_empty h]

theorem answersLike_ofParts {d d' : Dump} (h : (d.types.map TypeInfo.key).Nodup)
    (htypes : d'.types ~ d.types) (hconstants : d'.constants ~ d.constants) :
    (ofParts d).AnswersLike (ofParts d') := by
  have h' : (d'.types.map TypeInfo.key).Nodup := (htypes.map _).nodup_iff.mpr h
  apply answersLike_of_get?
  · intro key
    ext info
    rw [ofParts, ofParts, types_foldl_addConstant, types_foldl_addConstant,
      get?_foldl_insert_empty h, get?_foldl_insert_empty h', htypes.mem_iff]
  · intro c
    rw [constants_ofParts, constants_ofParts, hconstants.mem_iff]

/-- **A dump is loaded as a whole or not at all, and the order of its types does not matter.**  A
text that reads as a dump gives the table of that dump.  There is one exactly if no two types have
the same key; otherwise the error names, as it is written, the first type whose key an earlier one
has.  The table is the one to which the types and the constants are added one by one; it describes
under a name the only listed type with the key of that name; and a dump with the same types and
constants in another order gives a table with the same answers. -/
theorem ofDump_all_or_nothing (d : Dump) :
    (∀ text, (Json.parse? text).bind Dump.ofJson? = some d → ofText text = ofDump d) ∧
    ((∃ t, ofDump d = .ok t) ↔ (d.types.map TypeInfo.key).Nodup) ∧
    (∀ e, ofDump d = .error e ↔
      ∃ before info behind, d.types = before ++ info :: behind ∧
        (before.map TypeInfo.key).Nodup ∧ info.key ∈ before.map TypeInfo.key ∧
        e = .duplicate info.name) ∧
    ∀ t, ofDump d = .ok t →
      t = d.constants.foldl addConstant (d.types.foldl insert empty) ∧
      (∀ name info, t.describe? name = some info ↔
        info ∈ d.types ∧ normalizeTypeName info.name = normalizeTypeName name) ∧
      ∀ d' : Dump, d'.types ~ d.types → d'.constants ~ d.constants →
        ∃ t', ofDump d' = .ok t' ∧ t.AnswersLike t' := by
  refine ⟨?_, ?_, fun _ => ofDump_eq_error_iff, ?_⟩
  · intro text hread
    obtain ⟨j, hparse, hdump⟩ := Option.bind_eq_some_iff.mp hread
    simp only [ofText, hparse, ofJson, hdump]
  · constructor
    · rintro ⟨t, ht⟩
      exact (ofDump_eq_ok_iff.mp ht).1
    · intro hnodup
      exact ⟨ofParts d, ofDump_eq_ok_iff.mpr ⟨hnodup, rfl⟩⟩
  · intro t ht
    obtain ⟨hnodup, rfl⟩ := ofDump_eq_ok_iff.mp ht
    refine ⟨rfl, fun _ _ => describe?_ofParts hnodup, ?_⟩
    intro d' htypes hconstants
    have hnodup' : (d'.types.map TypeInfo.key).Nodup := (htypes.map _).nodup_iff.mpr hnodup
    exact ⟨ofParts d', ofDump_eq_ok_iff.mpr ⟨hnodup', rfl⟩,
      answersLike_ofParts hnodup htypes hconstants⟩

end TemplateContracts.ClassTable
