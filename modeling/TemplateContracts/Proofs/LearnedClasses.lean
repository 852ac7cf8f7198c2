import Mathlib.Data.List.Flatten
import TemplateContracts.Proofs.ContractGuards
import TemplateContracts.Proofs.TypeWeakening

/-!
# Learning about a class

A class that becomes described may have been the missing middle of many lineages, so a search that
used to stop there now goes on, and meets what it met before in another order.  Nothing that was
reachable is lost.  So a value keeps its types, and the guards of a template fail at most where they
failed before.

* `ClassTable.ExtendedBy` : a table describes all that another one does;
* `Template.checkGuards_insert_sublist` : **the description of a new class only takes findings away**,
  and only those of values that did not have their type.
-/

namespace TemplateContracts

/-! ### More descriptions -/

namespace ClassTable

open Relation (ReflTransGen)

/-- `t'` describes all that `t` describes, in the same words. -/
def ExtendedBy (t t' : ClassTable) : Prop :=
  ∀ key info, t.types.get? key = some info → t'.types.get? key = some info

theorem extendedBy_insert {t : ClassTable} {info : TypeInfo} (h : t.knows info.name = false) :
    t.ExtendedBy (t.insert info) := by
  intro key other hget
  have hne : key ≠ info.key := by
    rintro rfl
    rw [knows, describe?, show t.types.get? (normalizeTypeName info.name) = some other from hget] at h
    cases h
  exact (Assoc.get?_set_of_ne t.types info hne).trans hget

namespace ExtendedBy

variable {t t' : ClassTable}

theorem inherits (h : t.ExtendedBy t') {key key' : String} (hstep : t.Inherits key key') :
    t'.Inherits key key' := by
  obtain ⟨info, hget, hnames⟩ := hstep
  exact ⟨info, h key info hget, hnames⟩

theorem reachable (h : t.ExtendedBy t') {key key' : String}
    (hpath : ReflTransGen t.Inherits key key') : ReflTransGen t'.Inherits key key' :=
  ReflTransGen.mono (fun _ _ => h.inherits) _ _ hpath

theorem isSubtype (h : t.ExtendedBy t') {a b : String} (hsub : t.isSubtype a b = true) :
    t'.isSubtype a b = true := by
  rw [isSubtype_iff] at hsub ⊢
  exact h.reachable hsub

theorem reached (h : t.ExtendedBy t') {c : String} {info : TypeInfo} (hreached : t.Reached c info) :
    t'.Reached c info := by
  obtain ⟨key, hpath, hget⟩ := hreached
  exact ⟨key, h.reachable hpath, h key info hget⟩

theorem isStringable (h : t.ExtendedBy t') {c : String} (hc : t.isStringable c = true) :
    t'.isStringable c = true := by
  rw [ClassTable.isStringable, Bool.or_eq_true, isSome_findMethod?_iff] at hc ⊢
  rcases hc with hsub | ⟨info, hreached, hmethod⟩
  · exact .inl (h.isSubtype hsub)
  · exact .inr ⟨info, h.reached hreached, hmethod⟩

theorem carries (h : t.ExtendedBy t') : t.Carries t' Eq Eq where
  refl _ := rfl
  isSubtype hab hcd hsub := hab ▸ hcd ▸ h.isSubtype hsub
  isStringable hcd hc := hcd ▸ h.isStringable hc

theorem accepts (h : t.ExtendedBy t') (type : TypeExpr) {v : Value} (hv : type.accepts t v = true) :
    type.accepts t' v = true :=
  h.carries.accepts (.refl (fun _ => rfl) type) (.same v) hv

end ExtendedBy

end ClassTable

/-! ### Guards under more descriptions -/

theorem filterMap_sublist_filterMap {α β : Type} {f g : α → Option β}
    (h : ∀ x, f x = g x ∨ f x = none) (xs : List α) : (xs.filterMap f).Sublist (xs.filterMap g) := by
  induction xs with
  | nil => exact .slnil
  | cons x xs ih =>
    rw [List.filterMap_cons, List.filterMap_cons]
    rcases h x with hx | hx
    · rw [hx]
      cases g x with
      | none => exact ih
      | some y => exact ih.cons_cons y
    · rw [hx]
      cases g x with
      | none => exact ih
      | some y => exact ih.cons y

namespace Guard

variable {t t' : ClassTable}

/-- With more descriptions a guard fails as before, or its value has got the type. -/
theorem failure?_extendedBy (h : t.ExtendedBy t') (check : GuardCheck) (value : Option Value) :
    failure? t' check value = failure? t check value ∨
      failure? t' check value = none ∧ failure? t check value = some .typeMismatch := by
  cases value with
  | none => cases check <;> exact .inl rfl
  | some v =>
    cases check with
    | isSet => exact .inl rfl
    | notNull => exact .inl (by rw [failure?_notNull, failure?_notNull])
    | hasType typeText =>
      simp only [failure?]
      cases hnull : v.isNull with
      | true => exact .inl rfl
      | false =>
        cases TypeExpr.parse? typeText with
        | none => exact .inl rfl
        | some type =>
          simp only [Option.all_some, Bool.false_or]
          cases hv : type.accepts t v with
          | true =>
            rw [h.accepts type hv]
            exact .inl rfl
          | false => cases type.accepts t' v <;> simp

/-- A failure that is no mismatch of types. -/
def keptFailure (e : Event × Diagnostic) : Bool := e.2.code != .typeMismatch

theorem run_extendedBy (h : t.ExtendedBy t') (context : Context) (place : Location) (g : Guard) :
    (run t' context place g = run t context place g ∨ run t' context place g = none) ∧
      (run t' context place g).filter keptFailure = (run t context place g).filter keptFailure := by
  simp only [run]
  rcases failure?_extendedBy h g.check (context.get? g.variableName) with heq | ⟨hnone, hsome⟩
  · rw [heq]
    exact ⟨.inl rfl, rfl⟩
  · rw [hnone, hsome]
    exact ⟨.inr rfl, rfl⟩

theorem runAll_extendedBy (h : t.ExtendedBy t') (context : Context) (place : Location)
    (guards : List Guard) :
    (runAll t' context place guards).Sublist (runAll t context place guards) ∧
      (runAll t' context place guards).filter keptFailure
        = (runAll t context place guards).filter keptFailure := by
  rw [runAll, runAll]
  constructor
  · exact filterMap_sublist_filterMap (fun g => (run_extendedBy h context place g).1) guards
  · rw [List.filter_filterMap, List.filter_filterMap]
    exact List.filterMap_congr fun g _ => (run_extendedBy h context place g).2

end Guard

namespace Template

variable {t t' : ClassTable}

theorem runGuards_extendedBy (h : t.ExtendedBy t') (context : Context) (m : Template) :
    (m.runGuards t' context).Sublist (m.runGuards t context) ∧
      (m.runGuards t' context).filter Guard.keptFailure
        = (m.runGuards t context).filter Guard.keptFailure := by
  rw [runGuards, runGuards]
  constructor
  · refine List.Sublist.flatMap_right m.body fun s _ => ?_
    cases s with
    | guarded a guards => exact (Guard.runAll_extendedBy h context _ guards).1
    | _ => exact .slnil
  · rw [List.filter_flatMap, List.filter_flatMap]
    refine List.flatMap_congr fun s _ => ?_
    cases s with
    | guarded a guards => exact (Guard.runAll_extendedBy h context _ guards).2
    | _ => rfl

/-- **Learning about a class breaks no render.**  When a class that was not described gets its
description, the findings of the guards of a template are some of those before, in the same order,
and those that are gone were mismatches of types.  For what is a subtype stays one, what converts to
text still does, and a value keeps every type that it has. -/
theorem checkGuards_insert_sublist (t : ClassTable) (info : TypeInfo)
    (hnew : t.knows info.name = false) :
    (∀ (m : Template) (context : Context),
      (m.checkGuards (t.insert info) context).entries.Sublist (m.checkGuards t context).entries ∧
      (m.checkGuards (t.insert info) context).entries.filter (·.code != .typeMismatch)
        = (m.checkGuards t context).entries.filter (·.code != .typeMismatch)) ∧
    (∀ a b, t.isSubtype a b = true → (t.insert info).isSubtype a b = true) ∧
    (∀ c, t.isStringable c = true → (t.insert info).isStringable c = true) ∧
    ∀ (type : TypeExpr) (v : Value), type.accepts t v = true →
      type.accepts (t.insert info) v = true := by
  have h := ClassTable.extendedBy_insert hnew
  refine ⟨fun m context => ?_, fun _ _ => h.isSubtype, fun _ => h.isStringable,
    fun type _ => h.accepts type⟩
  obtain ⟨hsublist, hkept⟩ := runGuards_extendedBy h context m
  rw [checkGuards, checkGuards, Diagnostics.entries_ofList, Diagnostics.entries_ofList]
  refine ⟨hsublist.map Prod.snd, ?_⟩
  rw [List.filter_map, List.filter_map]
  exact congrArg (List.map Prod.snd) hkept

/-- A memo is a report, but nobody has said so yet. -/
def memo : TypeInfo := { name := "App\\Memo", parents := ["app\\report"] }

theorem not_isSubtype_memo :
    ClassTable.documents.isSubtype "App\\Memo" "App\\Document" = false := by
  have hkey : normalizeTypeName "App\\Memo" = "app\\memo" := by decide +kernel
  have hnone : ClassTable.documents.types.get? "app\\memo" = none := by decide +kernel
  rw [Bool.eq_false_iff, ne_eq, ClassTable.isSubtype_iff, hkey]
  intro hpath
  -- there is no step from a name that is not described
  rcases hpath.cases_head with heq | ⟨_, ⟨info, hget, -⟩, -⟩
  · exact absurd heq (by decide +kernel)
  · rw [hnone] at hget
    cases hget

theorem isSubtype_insert_memo :
    (ClassTable.documents.insert memo).isSubtype "App\\Memo" "App\\Document" = true := by
  have hextended : ClassTable.documents.ExtendedBy (ClassTable.documents.insert memo) :=
    ClassTable.extendedBy_insert (by decide +kernel)
  have hreport : (ClassTable.documents.insert memo).Inherits "app\\memo" "app\\report" :=
    ⟨memo, by decide +kernel, "app\\report", .inl (by decide), by decide +kernel⟩
  exact ClassTable.isSubtype_of_keys (by decide +kernel) (by decide +kernel)
    (.head hreport (hextended.reachable
      (.tail (.single ClassTable.documents_report_page) ClassTable.documents_page_document)))

/-- A template that wants documents and a title. -/
def memoPage : Template where
  name := "memo"
  body :=
    [.guarded ⟨[], .ofLine 1⟩
      [⟨"sources", .hasType "\\App\\Document[]"⟩, ⟨"title", .isSet⟩]]
  span := .ofLine 1

/-- With its description a memo becomes a document, and reports stay documents. -/
theorem checkGuards_insert_sublist_memo :
    ClassTable.documents.knows memo.name = false ∧
      (∀ context, (memoPage.checkGuards (ClassTable.documents.insert memo) context).entries.Sublist
        (memoPage.checkGuards ClassTable.documents context).entries) ∧
      ClassTable.documents.isSubtype "App\\Memo" "App\\Document" = false ∧
      (ClassTable.documents.insert memo).isSubtype "App\\Memo" "App\\Document" = true ∧
      ClassTable.documents.isSubtype "App\\Report" "App\\Document" = true ∧
      (ClassTable.documents.insert memo).isSubtype "App\\Report" "App\\Document" = true ∧
      ClassTable.documents.isStringable "App\\Document" = true ∧
      (ClassTable.documents.insert memo).isStringable "App\\Document" = true ∧
      (TypeExpr.classRef "App\\Document").accepts ClassTable.documents (.object "App\\Report")
        = true ∧
      (TypeExpr.classRef "App\\Document").accepts (ClassTable.documents.insert memo)
        (.object "App\\Report") = true := by
  have hnew : ClassTable.documents.knows memo.name = false := by decide +kernel
  obtain ⟨hfindings, hsubtype, hstringable, haccepts⟩ :=
    checkGuards_insert_sublist ClassTable.documents memo hnew
  have hreport := ClassTable.documents_isSubtype_report
  have hdocument := ClassTable.documents_isStringable
  have haccepted : (TypeExpr.classRef "App\\Document").accepts ClassTable.documents
      (.object "App\\Report") = true := TypeExpr.accepts_classRef_iff.mpr ⟨_, rfl, hreport⟩
  exact ⟨hnew, fun context => (hfindings memoPage context).1, not_isSubtype_memo,
    isSubtype_insert_memo, hreport, hsubtype _ _ hreport, hdocument, hstringable _ hdocument,
    haccepted, haccepts _ _ haccepted⟩

end Template

end TemplateContracts
