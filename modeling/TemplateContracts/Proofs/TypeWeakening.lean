import TemplateContracts.Proofs.AcceptedValues
import TemplateContracts.Proofs.NearestDeclarations

/-!
# Subtypes, values and weaker types

A value keeps its declared types when objects in it, at any depth, are replaced by objects of
subtypes, and a value of a type has every weaker type.  Both rest on two facts about the hierarchy:
subtypes of subtypes are subtypes, and what a type declares or inherits, its subtypes inherit.

* `ClassTable.Reached.of_isSubtype` : a subtype reaches all that the type reaches;
* `ClassTable.Specializes` : the same value but for classes replaced by subtypes;
* `ClassTable.accepts_of_specializes` : **values with subtypes in the place of types are
  accepted wherever the values are**;
* `TypeExpr.Weakens` : the order of declared types, by its rules;
* `TypeExpr.accepts_of_weakens` : **a value of a type has every weaker type**.
-/

namespace TemplateContracts

/-! ### What subtypes inherit -/

namespace ClassTable

variable {t : ClassTable}

theorem Reached.of_isSubtype {c d : String} {info : TypeInfo} (hsub : t.isSubtype c d = true)
    (h : t.Reached d info) : t.Reached c info := by
  obtain ⟨key, hpath, hget⟩ := h
  exact ⟨key, ((t.isSubtype_iff c d).mp hsub).trans hpath, hget⟩

theorem exists_reached_of_isSubtype {c d : String} {P : TypeInfo → Prop}
    (hsub : t.isSubtype c d = true) :
    (∃ info, t.Reached d info ∧ P info) → ∃ info, t.Reached c info ∧ P info := by
  rintro ⟨info, hreached, hP⟩
  exact ⟨info, hreached.of_isSubtype hsub, hP⟩

theorem isSome_findMethod?_of_isSubtype {c d name : String} (hsub : t.isSubtype c d = true)
    (h : (t.findMethod? d name).isSome = true) : (t.findMethod? c name).isSome = true := by
  rw [isSome_findMethod?_iff] at h ⊢
  exact exists_reached_of_isSubtype hsub h

theorem isSome_findProperty?_of_isSubtype {c d name : String} (hsub : t.isSubtype c d = true)
    (h : (t.findProperty? d name).isSome = true) : (t.findProperty? c name).isSome = true := by
  rw [isSome_findProperty?_iff] at h ⊢
  exact exists_reached_of_isSubtype hsub h

theorem hasVirtualProperty_of_isSubtype {c d name : String} (hsub : t.isSubtype c d = true)
    (h : t.hasVirtualProperty d name = true) : t.hasVirtualProperty c name = true := by
  rw [hasVirtualProperty_iff] at h ⊢
  exact exists_reached_of_isSubtype hsub h

theorem isStringable_of_isSubtype {c d : String} (hsub : t.isSubtype c d = true)
    (h : t.isStringable d = true) : t.isStringable c = true := by
  rw [isStringable, Bool.or_eq_true] at h ⊢
  rcases h with hstringable | hmethod
  · exact .inl (isSubtype_trans hsub hstringable)
  · exact .inr (isSome_findMethod?_of_isSubtype hsub hmethod)

end ClassTable

/-! ### Subtypes in the place of types -/

namespace ClassTable

/-- `t.Specializes v v'` : the values have one shape, with the same keys and scalars, and the class
of each object in `v'` is a subtype of the class in its place in `v`. -/
inductive Specializes (t : ClassTable) : Value → Value → Prop where
  | null : Specializes t .null .null
  | bool (b : Bool) : Specializes t (.bool b) (.bool b)
  | int (i : Int64) : Specializes t (.int i) (.int i)
  | float (x : Binary64) : Specializes t (.float x) (.float x)
  | string (s : String) : Specializes t (.string s) (.string s)
  | array {entries entries' : List (Key × Value)} :
      entries.map Prod.fst = entries'.map Prod.fst →
      (∀ p ∈ entries.zip entries', Specializes t p.1.2 p.2.2) →
      Specializes t (.array entries) (.array entries')
  | object {c c' : String} : t.isSubtype c' c = true → Specializes t (.object c) (.object c')
  | traversable {c c' : String} {entries entries' : List (Key × Value)} :
      t.isSubtype c' c = true → entries.map Prod.fst = entries'.map Prod.fst →
      (∀ p ∈ entries.zip entries', Specializes t p.1.2 p.2.2) →
      Specializes t (.traversable c entries) (.traversable c' entries')

variable {t : ClassTable}

namespace Specializes

variable {v v' : Value}

theorem renamed (h : t.Specializes v v') : v.Renamed (fun c c' => t.isSubtype c' c = true) v' := by
  induction h with
  | array hkeys _ ih => exact .array hkeys ih
  | object hsub => exact .object hsub
  | traversable hsub hkeys _ ih => exact .traversable hsub hkeys ih
  | _ => exact .same _

theorem carries (t : ClassTable) : t.Carries t (fun c c' => t.isSubtype c' c = true) Eq where
  refl := t.isSubtype_refl
  isSubtype hsub heq h := isSubtype_trans hsub (heq ▸ h)
  isStringable := isStringable_of_isSubtype

theorem accepts (h : t.Specializes v v') (type : TypeExpr) (hv : type.accepts t v = true) :
    type.accepts t v' = true :=
  (carries t).accepts (.refl (fun _ => rfl) type) h.renamed hv

end Specializes

/-- **Subtypes can stand in the place of types.**  A value is accepted wherever one is accepted that
differs from it only in classes of which its own are subtypes.  In particular a subtype converts to
text if the type does, and has the methods, properties and virtual properties of the type. -/
theorem accepts_of_specializes (t : ClassTable) :
    (∀ (type : TypeExpr) (v v' : Value), t.Specializes v v' → type.accepts t v = true →
      type.accepts t v' = true) ∧
    ∀ c d, t.isSubtype c d = true →
      (t.isStringable d = true → t.isStringable c = true) ∧
      (∀ name, (t.findMethod? d name).isSome = true → (t.findMethod? c name).isSome = true) ∧
      (∀ name, (t.findProperty? d name).isSome = true → (t.findProperty? c name).isSome = true) ∧
      ∀ name, t.hasVirtualProperty d name = true → t.hasVirtualProperty c name = true := by
  refine ⟨fun type v v' h => h.accepts type, fun c d hsub => ⟨?_, ?_, ?_, ?_⟩⟩
  · exact isStringable_of_isSubtype hsub
  · exact fun name => isSome_findMethod?_of_isSubtype hsub
  · exact fun name => isSome_findProperty?_of_isSubtype hsub
  · exact fun name => hasVirtualProperty_of_isSubtype hsub

theorem isSubtype_of_keys {a b key key' : String} (ha : normalizeTypeName a = key)
    (hb : normalizeTypeName b = key') (hpath : Relation.ReflTransGen t.Inherits key key') :
    t.isSubtype a b = true := by
  subst ha hb
  exact (t.isSubtype_iff a b).mpr hpath

theorem documents_isSubtype_report : documents.isSubtype "App\\Report" "App\\Document" = true :=
  isSubtype_of_keys (by decide +kernel) (by decide +kernel)
    (.tail (.single documents_report_page) documents_page_document)

theorem documents_isSubtype_page : documents.isSubtype "app\\PAGE" "App\\Document" = true :=
  isSubtype_of_keys (by decide +kernel) (by decide +kernel) (.single documents_page_document)

theorem documents_isStringable : documents.isStringable "App\\Document" = true := by
  have hsub : documents.isSubtype "App\\Document" "Stringable" = true :=
    isSubtype_of_keys (by decide +kernel) (by decide +kernel)
      (.single documents_document_stringable)
  rw [isStringable, hsub, Bool.true_or]

/-- A document, and a collection of documents. -/
def drafts : Value :=
  .array [(.int 0, .object "App\\Document"),
    (.str "more", .traversable "App\\Document" [(.int 7, .object "App\\Document")])]

/-- The same with reports and pages. -/
def prints : Value :=
  .array [(.int 0, .object "App\\Report"),
    (.str "more", .traversable "app\\PAGE" [(.int 7, .object "App\\Report")])]

/-- What reports and pages inherit from documents lets them stand in their place. -/
theorem accepts_of_specializes_prints :
    documents.Specializes drafts prints ∧
      (TypeExpr.iterableOf (.classRef "App\\Document")).accepts documents drafts = true ∧
      (TypeExpr.iterableOf (.classRef "App\\Document")).accepts documents prints = true ∧
      documents.isStringable "App\\Document" = true ∧
      documents.isStringable "App\\Report" = true := by
  obtain ⟨haccepts, hinherits⟩ := accepts_of_specializes documents
  have hmore : documents.Specializes
      (.traversable "App\\Document" [(.int 7, .object "App\\Document")])
      (.traversable "app\\PAGE" [(.int 7, .object "App\\Report")]) :=
    .traversable documents_isSubtype_page rfl
      (List.forall_mem_singleton.mpr (.object documents_isSubtype_report))
  have hspec : documents.Specializes drafts prints :=
    .array rfl (List.forall_mem_cons.mpr
      ⟨.object documents_isSubtype_report, List.forall_mem_singleton.mpr hmore⟩)
  have hdrafts :
      (TypeExpr.iterableOf (.classRef "App\\Document")).accepts documents drafts = true := by
    refine TypeExpr.accepts_iterableOf_iff.mpr ⟨_, rfl, List.forall_mem_cons.mpr
      ⟨?_, List.forall_mem_singleton.mpr ?_⟩⟩
    · exact TypeExpr.accepts_classRef_iff.mpr ⟨_, rfl, documents.isSubtype_refl _⟩
    · exact TypeExpr.accepts_classRef_iff.mpr ⟨_, rfl, documents.isSubtype_refl _⟩
  exact ⟨hspec, hdrafts, haccepts _ _ _ hspec hdrafts, documents_isStringable,
    (hinherits _ _ documents_isSubtype_report).1 documents_isStringable⟩

end ClassTable

/-! ### Weaker types -/

namespace TypeExpr

/-- `S.Weakens t T` : `T` is a weaker type than `S`. -/
inductive Weakens (t : ClassTable) : TypeExpr → TypeExpr → Prop where
  | refl (S : TypeExpr) : Weakens t S S
  | trans {R S T : TypeExpr} : Weakens t R S → Weakens t S T → Weakens t R T
  | mixed (S : TypeExpr) : Weakens t S (.basic .mixed)
  | nullable (S : TypeExpr) : Weakens t S (.nullable S)
  | null (T : TypeExpr) : Weakens t (.basic .null) (.nullable T)
  | underNullable {S T : TypeExpr} : Weakens t S T → Weakens t (.nullable S) (.nullable T)
  | subtype {c d : String} : t.isSubtype c d = true → Weakens t (.classRef c) (.classRef d)
  | object (c : String) : Weakens t (.classRef c) (.basic .object)
  | stringable {c : String} : t.isStringable c = true → Weakens t (.classRef c) (.basic .string)
  | anyKey (K V : TypeExpr) : Weakens t (.keyedIterable K V) (.iterableOf V)
  | anyValue (V : TypeExpr) : Weakens t (.iterableOf V) (.basic .iterable)
  | values {V W : TypeExpr} : Weakens t V W → Weakens t (.iterableOf V) (.iterableOf W)
  | keyedValues (K : TypeExpr) {V W : TypeExpr} : Weakens t V W →
      Weakens t (.keyedIterable K V) (.keyedIterable K W)

/-- **A value of a type has every weaker type.** -/
theorem accepts_of_weakens (t : ClassTable) {S T : TypeExpr} (h : S.Weakens t T) (v : Value)
    (hv : S.accepts t v = true) : T.accepts t v = true := by
  induction h generalizing v with
  | refl S => exact hv
  | trans _ _ ihfirst ihsecond => exact ihsecond v (ihfirst v hv)
  | mixed S => rfl
  | nullable S => exact accepts_nullable_iff.mpr (.inr hv)
  | null T => exact accepts_nullable_iff.mpr (.inl hv)
  | underNullable _ ih =>
    rw [accepts_nullable_iff] at hv ⊢
    exact hv.imp_right (ih v)
  | subtype hsub =>
    rw [accepts_classRef_iff] at hv ⊢
    obtain ⟨c, hc, hclass⟩ := hv
    exact ⟨c, hc, ClassTable.isSubtype_trans hclass hsub⟩
  | object c =>
    obtain ⟨d, hd, -⟩ := accepts_classRef_iff.mp hv
    show v.className?.isSome = true
    rw [hd]
    rfl
  | stringable hstringable =>
    obtain ⟨d, hd, hclass⟩ := accepts_classRef_iff.mp hv
    exact accepts_string_of_className? hd (ClassTable.isStringable_of_isSubtype hclass hstringable)
  | anyKey K V =>
    rw [accepts_keyedIterable_iff] at hv
    rw [accepts_iterableOf_iff]
    obtain ⟨entries, hentries, hall⟩ := hv
    exact ⟨entries, hentries, fun e he => (hall e he).1⟩
  | anyValue V =>
    obtain ⟨entries, hentries, -⟩ := accepts_iterableOf_iff.mp hv
    show v.entries?.isSome = true
    rw [hentries]
    rfl
  | values _ ih =>
    rw [accepts_iterableOf_iff] at hv ⊢
    obtain ⟨entries, hentries, hall⟩ := hv
    exact ⟨entries, hentries, fun e he => ih e.2 (hall e he)⟩
  | keyedValues K _ ih =>
    rw [accepts_keyedIterable_iff] at hv ⊢
    obtain ⟨entries, hentries, hall⟩ := hv
    exact ⟨entries, hentries, fun e he => ⟨ih e.2 (hall e he).1, (hall e he).2⟩⟩

/-- A list of documents is an iterable of texts that may be null. -/
theorem accepts_of_weakens_documents :
    (keyedIterable (.basic .number) (.classRef "App\\Document")).Weakens ClassTable.documents
        (iterableOf (.nullable (.basic .string))) ∧
      (keyedIterable (.basic .number) (.classRef "App\\Document")).accepts ClassTable.documents
        (.list [.object "app\\PAGE", .object "App\\Report"]) = true ∧
      (iterableOf (.nullable (.basic .string))).accepts ClassTable.documents
        (.list [.object "app\\PAGE", .object "App\\Report"]) = true := by
  have hweakens : (keyedIterable (.basic .number) (.classRef "App\\Document")).Weakens
      ClassTable.documents (iterableOf (.nullable (.basic .string))) :=
    .trans (.anyKey _ _)
      (.values (.trans (.stringable ClassTable.documents_isStringable) (.nullable _)))
  have hlist : (keyedIterable (.basic .number) (.classRef "App\\Document")).accepts
      ClassTable.documents (.list [.object "app\\PAGE", .object "App\\Report"]) = true := by
    refine accepts_keyedIterable_iff.mpr ⟨_, rfl, List.forall_mem_cons.mpr
      ⟨⟨?_, rfl⟩, List.forall_mem_singleton.mpr ⟨?_, rfl⟩⟩⟩
    · exact accepts_classRef_iff.mpr ⟨_, rfl, ClassTable.documents_isSubtype_page⟩
    · exact accepts_classRef_iff.mpr ⟨_, rfl, ClassTable.documents_isSubtype_report⟩
  exact ⟨hweakens, hlist, accepts_of_weakens ClassTable.documents hweakens _ hlist⟩

end TypeExpr

end TemplateContracts
