import Mathlib.Data.List.Forall2
import TemplateContracts.Proofs.LearnedClasses

/-!
# The spelling of class names

A class may be written in any ASCII case and with any number of leading backslashes.  Names are kept
as they are written: in types, in values, and in the lists of parents and traits, from where they go
into the queue of a search.  Only a look at the table or at the seen keys normalizes them.  Two
searches over two spellings hold different names in every round, and the same keys.

* `SameName` : two spellings of one name;
* `ClassTable.Respelled` : a table with other spellings;
* `ClassTable.Respelled.searchOrder_eq` : **two searches over two spellings meet the same keys**;
* `ClassTable.class_spelling_irrelevant` : **no answer about classes depends on their spelling**.
-/

namespace TemplateContracts

/-! ### Spellings of a name -/

/-- Two spellings of one class name. -/
def SameName (a b : String) : Prop := normalizeTypeName a = normalizeTypeName b

instance (a b : String) : Decidable (SameName a b) := inferInstanceAs (Decidable (_ = _))

theorem SameName.refl (a : String) : SameName a a := rfl

theorem SameName.symm {a b : String} (h : SameName a b) : SameName b a := Eq.symm h

/-- Lower case makes no backslash out of another character. -/
theorem toLower_eq_backslash_iff (c : Char) : c.toLower = '\\' ↔ c = '\\' := by
  unfold Char.toLower
  split
  · next hc =>
    have hlow : 65 ≤ c.val.toNat := hc.1
    have hhigh : c.val.toNat ≤ 90 := hc.2
    constructor
    · intro h
      have hnat : (c.val + 32).toNat = 92 := congrArg (fun d : Char => d.val.toNat) h
      have hgap : (32 : UInt32).toNat = 32 := rfl
      rw [UInt32.toNat_add] at hnat
      omega
    · rintro rfl
      exact absurd hhigh (by decide)
  · rfl

/-- It makes no difference whether backslashes are dropped before or after the change of case. -/
theorem normalizeTypeName_eq (a : String) :
    normalizeTypeName a = String.ofList ((a.toList.map Char.toLower).dropWhile (· == '\\')) := by
  have hback : (fun c : Char => c.toLower == '\\') = (· == '\\') := by
    funext c
    rw [Bool.eq_iff_iff, beq_iff_eq, beq_iff_eq, toLower_eq_backslash_iff]
  rw [normalizeTypeName, lowercase, trimBackslashes, String.toList_ofList, List.dropWhile_map]
  show _ = String.ofList ((a.toList.dropWhile fun c => c.toLower == '\\').map Char.toLower)
  rw [hback]

theorem normalizeTypeName_eq_of_toList {a : String} {n : Nat} {rest : List Char}
    (h : a.toList = List.replicate n '\\' ++ rest) :
    normalizeTypeName a = String.ofList ((rest.map Char.toLower).dropWhile (· == '\\')) := by
  have hslash : ∀ c ∈ (List.replicate n '\\').map Char.toLower, (c == '\\') = true := by
    simp
  rw [normalizeTypeName_eq, h, List.map_append, List.dropWhile_append_of_pos hslash]

/-- The backslashes in front of a name. -/
theorem exists_toList_eq (a : String) :
    ∃ n, a.toList = List.replicate n '\\' ++ a.toList.dropWhile (· == '\\') := by
  refine ⟨(a.toList.takeWhile (· == '\\')).length, ?_⟩
  have hfront : a.toList.takeWhile (· == '\\')
      = List.replicate (a.toList.takeWhile (· == '\\')).length '\\' := by
    rw [List.eq_replicate_iff]
    refine ⟨rfl, fun c hc => ?_⟩
    simpa using List.all_eq_true.mp List.all_takeWhile c hc
  rw [← hfront, List.takeWhile_append_dropWhile]

/-- Spellings of one name differ in the number of leading backslashes and in ASCII case. -/
theorem sameName_iff (a b : String) :
    SameName a b ↔ ∃ (m n : Nat) (rest rest' : List Char),
      a.toList = List.replicate m '\\' ++ rest ∧ b.toList = List.replicate n '\\' ++ rest' ∧
        rest.map Char.toLower = rest'.map Char.toLower := by
  constructor
  · intro h
    obtain ⟨m, hm⟩ := exists_toList_eq a
    obtain ⟨n, hn⟩ := exists_toList_eq b
    refine ⟨m, n, _, _, hm, hn, ?_⟩
    rw [SameName, normalizeTypeName, normalizeTypeName, lowercase, lowercase,
      String.ofList_inj] at h
    simpa [trimBackslashes] using h
  · rintro ⟨m, n, rest, rest', hm, hn, hrest⟩
    rw [SameName, normalizeTypeName_eq_of_toList hm, normalizeTypeName_eq_of_toList hn, hrest]

theorem map_eq_map_of_forall₂ {α β γ : Type} {R : α → β → Prop} {f : α → γ} {g : β → γ}
    {xs : List α} {ys : List β} (h : List.Forall₂ R xs ys) (hfg : ∀ x y, R x y → f x = g y) :
    xs.map f = ys.map g := by
  induction h with
  | nil => rfl
  | cons hxy _ ih => rw [List.map_cons, List.map_cons, hfg _ _ hxy, ih]

/-! ### Tables with other spellings -/

/-- A description with other spellings of its own name, its parents and its traits. -/
def TypeInfo.Respelled (info info' : TypeInfo) : Prop :=
  ∃ name parents traits, SameName info.name name ∧ List.Forall₂ SameName info.parents parents ∧
    List.Forall₂ SameName info.traits traits ∧ info' = { info with name, parents, traits }

theorem TypeInfo.Respelled.symm {info info' : TypeInfo} (h : info.Respelled info') :
    info'.Respelled info := by
  obtain ⟨name, parents, traits, hname, hparents, htraits, rfl⟩ := h
  exact ⟨_, _, _, hname.symm, (hparents.imp fun _ _ => SameName.symm).flip,
    (htraits.imp fun _ _ => SameName.symm).flip, rfl⟩

theorem TypeInfo.Respelled.ancestors {info info' : TypeInfo} (h : info.Respelled info') :
    List.Forall₂ SameName info.ancestors info'.ancestors := by
  obtain ⟨name, parents, traits, -, hparents, htraits, rfl⟩ := h
  exact List.rel_append hparents htraits

namespace ClassTable

/-- The same descriptions under the same keys, with other spellings of names. -/
def Respelled (t t' : ClassTable) : Prop :=
  List.Forall₂ (fun p p' => p.1 = p'.1 ∧ p.2.Respelled p'.2) t.types t'.types

namespace Respelled

variable {t t' : ClassTable}

theorem symm (h : t.Respelled t') : t'.Respelled t :=
  (h.imp fun _ _ hp => And.intro hp.1.symm hp.2.symm).flip

theorem get? (h : t.Respelled t') (key : String) :
    Option.Rel TypeInfo.Respelled (t.types.get? key) (t'.types.get? key) := by
  unfold Respelled at h
  generalize t.types = types, t'.types = types' at h ⊢
  induction h with
  | nil => exact .none
  | @cons p p' _ _ hp _ ih =>
    obtain ⟨k, info⟩ := p
    obtain ⟨k', info'⟩ := p'
    obtain ⟨rfl, hinfo⟩ := hp
    rw [Assoc.get?, Assoc.get?]
    by_cases hk : k = key
    · rw [if_pos hk, if_pos hk]
      exact .some hinfo
    · rw [if_neg hk, if_neg hk]
      exact ih

theorem describe? (h : t.Respelled t') {a b : String} (hab : SameName a b) :
    Option.Rel TypeInfo.Respelled (t.describe? a) (t'.describe? b) := by
  rw [ClassTable.describe?, ClassTable.describe?, ← show _ = normalizeTypeName b from hab]
  exact h.get? _

theorem knows_eq (h : t.Respelled t') {a b : String} (hab : SameName a b) :
    t.knows a = t'.knows b := by
  have hrel := h.describe? hab
  rw [knows, knows]
  generalize t.describe? a = found, t'.describe? b = found' at hrel ⊢
  cases hrel <;> rfl

theorem listed (h : t.Respelled t') {a b : String} (hab : SameName a b) :
    List.Forall₂ SameName (t.listed a) (t'.listed b) := by
  have hrel := h.describe? hab
  rw [ClassTable.listed, ClassTable.listed]
  generalize t.describe? a = found, t'.describe? b = found' at hrel ⊢
  cases hrel with
  | some hinfo => exact hinfo.ancestors
  | none => exact .nil

/-- **Two searches over two spellings meet the same keys.**  Their queues hold the same names in two
spellings, and they have seen the same keys. -/
theorem searchOrder_eq (h : t.Respelled t') (queue seen : List String) :
    ∀ queue', List.Forall₂ SameName queue queue' →
      t.searchOrder queue seen = t'.searchOrder queue' seen := by
  induction queue, seen using searchOrder.induct t with
  | case1 seen =>
    intro queue' hqueue
    cases hqueue
    rw [searchOrder, searchOrder]
  | case2 seen name queue key hs ih =>
    intro queue' hqueue
    obtain ⟨name', rest', hname, hrest, rfl⟩ := List.forall₂_cons_left_iff.mp hqueue
    have hkey : key = normalizeTypeName name' := hname
    have hs' : normalizeTypeName name' ∈ seen := hkey ▸ hs
    rw [searchOrder, dif_pos hs, searchOrder, dif_pos hs', ih _ hrest]
  | case3 seen name queue key hs ih =>
    intro queue' hqueue
    obtain ⟨name', rest', hname, hrest, rfl⟩ := List.forall₂_cons_left_iff.mp hqueue
    have hkey : key = normalizeTypeName name' := hname
    have hs' : normalizeTypeName name' ∉ seen := hkey ▸ hs
    have hnext := ih _ (List.rel_append hrest (h.listed hname))
    rw [searchOrder, dif_neg hs, searchOrder, dif_neg hs', hnext]
    show key :: _ = _
    rw [hkey]

theorem searchOrder_singleton (h : t.Respelled t') {a b : String} (hab : SameName a b) :
    t.searchOrder [a] [] = t'.searchOrder [b] [] :=
  h.searchOrder_eq _ _ _ (.cons hab .nil)

theorem isSubtype_eq (h : t.Respelled t') {a b c d : String} (hab : SameName a b)
    (hcd : SameName c d) : t.isSubtype a c = t'.isSubtype b d := by
  rw [isSubtype, isSubtype, Bool.eq_iff_iff, reaches_iff_mem List.not_mem_nil,
    reaches_iff_mem List.not_mem_nil, h.searchOrder_singleton hab,
    show normalizeTypeName c = normalizeTypeName d from hcd]

/-- Two lineages list the same descriptions in two spellings. -/
theorem lineage (h : t.Respelled t') {a b : String} (hab : SameName a b) :
    List.Forall₂ TypeInfo.Respelled (t.lineage a) (t'.lineage b) := by
  rw [ClassTable.lineage, ClassTable.lineage, reach_eq_filterMap, reach_eq_filterMap,
    h.searchOrder_singleton hab]
  refine List.rel_filterMap (R := Eq) ?_ (List.forall₂_refl _)
  rintro key _ rfl
  exact h.get? key

theorem map_lineage (h : t.Respelled t') {a b : String} (hab : SameName a b) {α : Type}
    {f : TypeInfo → α} (hf : ∀ info info', info.Respelled info' → f info = f info') :
    (t.lineage a).map f = (t'.lineage b).map f :=
  map_eq_map_of_forall₂ (h.lineage hab) hf

/-- What is found first along a lineage, if it is looked for in a part of the descriptions that is
not spelled in another way. -/
theorem findSome?_lineage (h : t.Respelled t') {a b : String} (hab : SameName a b) {α : Type}
    {f : TypeInfo → Option α} (hf : ∀ info info', info.Respelled info' → f info = f info') :
    (t.lineage a).findSome? f = (t'.lineage b).findSome? f := by
  have hfind := congrArg (List.findSome? id) (h.map_lineage hab hf)
  rwa [List.findSome?_map, List.findSome?_map] at hfind

theorem findProperty?_eq (h : t.Respelled t') {a b : String} (hab : SameName a b) (name : String) :
    t.findProperty? a name = t'.findProperty? b name :=
  h.findSome?_lineage hab fun _ _ ⟨_, _, _, _, _, _, heq⟩ => heq ▸ rfl

theorem findMethod?_eq (h : t.Respelled t') {a b : String} (hab : SameName a b) (name : String) :
    t.findMethod? a name = t'.findMethod? b name :=
  h.findSome?_lineage hab fun _ _ ⟨_, _, _, _, _, _, heq⟩ => heq ▸ rfl

theorem hasVirtualProperty_eq (h : t.Respelled t') {a b : String} (hab : SameName a b)
    (name : String) : t.hasVirtualProperty a name = t'.hasVirtualProperty b name := by
  have hmap : (t.lineage a).map (·.virtualProperties) = (t'.lineage b).map (·.virtualProperties) :=
    h.map_lineage hab fun _ _ ⟨_, _, _, _, _, _, heq⟩ => heq ▸ rfl
  have hany := congrArg (fun names => List.any names fun ns => ns.contains name) hmap
  simp only [List.any_map] at hany
  exact hany

theorem isStringable_eq (h : t.Respelled t') {c d : String} (hcd : SameName c d) :
    t.isStringable c = t'.isStringable d := by
  rw [isStringable, isStringable, h.isSubtype_eq hcd (.refl _), h.findMethod?_eq hcd]

theorem hasAttribute_eq (h : t.Respelled t') {c d : String} (hcd : SameName c d) (attr : String)
    (access : AccessKind) : t.hasAttribute c attr access = t'.hasAttribute d attr access := by
  have hmethods : t.findMethod? c = t'.findMethod? d := funext fun name => h.findMethod?_eq hcd name
  rw [hasAttribute, hasAttribute, h.findProperty?_eq hcd, h.hasVirtualProperty_eq hcd, hmethods]

theorem carries (h : t.Respelled t') : t.Carries t' SameName SameName where
  refl := .refl
  isSubtype hab hcd hsub := h.isSubtype_eq hab hcd ▸ hsub
  isStringable hcd hc := h.isStringable_eq hcd ▸ hc

end Respelled

end ClassTable

/-! ### Types with other spellings -/

namespace TypeExpr.Renamed

variable {R : String → String → Prop} {S T : TypeExpr}

theorem nonNull (h : S.Renamed R T) : S.nonNull.Renamed R T.nonNull := by
  cases h with
  | nullable h => exact h
  | basic b => exact .basic b
  | iterableOf h => exact .iterableOf h
  | keyedIterable hkey hvalue => exact .keyedIterable hkey hvalue
  | classRef hcd => exact .classRef hcd

theorem classRefs (h : S.Renamed R T) : List.Forall₂ R S.classRefs T.classRefs := by
  induction h with
  | basic b => exact .nil
  | nullable _ ih => exact ih
  | iterableOf _ ih => exact ih
  | keyedIterable _ _ ihkey ihvalue => exact List.rel_append ihvalue ihkey
  | classRef hcd => exact .cons hcd .nil

end TypeExpr.Renamed

namespace ClassTable

variable {t t' : ClassTable} {S T : TypeExpr}

namespace Respelled

theorem accepts_eq (h : t.Respelled t') (htype : S.Renamed SameName T) {v w : Value}
    (hvalue : v.Renamed SameName w) : S.accepts t v = T.accepts t' w := by
  rw [Bool.eq_iff_iff]
  constructor
  · exact h.carries.accepts htype hvalue
  · exact h.symm.carries.accepts (htype.symm .symm) (hvalue.symm .symm)

theorem isKnown_eq (h : t.Respelled t') (htype : S.Renamed SameName T) :
    S.isKnown t = T.isKnown t' := by
  have hmap : S.classRefs.map t.knows = T.classRefs.map t'.knows :=
    map_eq_map_of_forall₂ htype.classRefs fun _ _ => h.knows_eq
  have hall := congrArg (List.all · id) hmap
  simp only [List.all_map] at hall
  exact hall

/-- The refusal names the type as it is written, so only whether there is one can be the same. -/
theorem isSome_accessError?_eq (h : t.Respelled t') (htype : S.Renamed SameName T) (attr : String)
    (access : AccessKind) :
    (t.accessError? S attr access).isSome = (t'.accessError? T attr access).isSome := by
  have hnonNull := htype.nonNull
  rw [accessError?, accessError?]
  by_cases haccess : access = .array
  · rw [if_pos haccess, if_pos haccess]
  · rw [if_neg haccess, if_neg haccess]
    generalize S.nonNull = S', T.nonNull = T' at hnonNull ⊢
    cases hnonNull with
    | basic b => cases b <;> rfl
    | nullable _ => rfl
    | iterableOf _ => rfl
    | keyedIterable _ _ => rfl
    | @classRef c d hcd =>
      show (if t.knows c && !t.hasAttribute c attr access then some _ else none).isSome
        = (if t'.knows d && !t'.hasAttribute d attr access then some _ else none).isSome
      rw [h.knows_eq hcd, h.hasAttribute_eq hcd]
      split <;> rfl

end Respelled

/-- **No answer about classes depends on their spelling.**  Spellings of one name differ in ASCII case
and in the number of leading backslashes.  If names are spelled in another way in a type, in a
value, or among the parents and traits of the descriptions, the same values are accepted, the same
names are subtypes and convert to text, the same types are known, lineages list the same keys in the
same order, and the same accesses are refused. -/
theorem class_spelling_irrelevant {t t' : ClassTable} (h : t.Respelled t') :
    (∀ a b, SameName a b ↔ ∃ (m n : Nat) (rest rest' : List Char),
      a.toList = List.replicate m '\\' ++ rest ∧ b.toList = List.replicate n '\\' ++ rest' ∧
        rest.map Char.toLower = rest'.map Char.toLower) ∧
    (∀ (S T : TypeExpr) (v w : Value), S.Renamed SameName T → v.Renamed SameName w →
      S.accepts t v = T.accepts t' w) ∧
    (∀ a b c d, SameName a b → SameName c d → t.isSubtype a c = t'.isSubtype b d) ∧
    (∀ c d, SameName c d → t.isStringable c = t'.isStringable d ∧
      (t.lineage c).map TypeInfo.key = (t'.lineage d).map TypeInfo.key) ∧
    ∀ S T : TypeExpr, S.Renamed SameName T → S.isKnown t = T.isKnown t' ∧
      ∀ attr access, (t.accessError? S attr access).isSome
        = (t'.accessError? T attr access).isSome := by
  refine ⟨sameName_iff, fun S T v w htype hvalue => h.accepts_eq htype hvalue,
    fun a b c d hab hcd => h.isSubtype_eq hab hcd, fun c d hcd => ⟨h.isStringable_eq hcd, ?_⟩,
    fun S T htype => ⟨h.isKnown_eq htype, h.isSome_accessError?_eq htype⟩⟩
  exact h.map_lineage hcd fun _ _ ⟨_, _, _, hname, _, _, heq⟩ => heq ▸ hname

/-- The documents, with parents and traits in other spellings. -/
def respelledDocuments : ClassTable :=
  (((empty.insert { report with parents := ["app\\PAGE"], traits := ["\\\\APP\\stamped"] }).insert
    { page with parents := ["\\App\\Document", "COUNTABLE"] }).insert stamped).insert
    { document with parents := ["\\app\\report", "\\stringable"] }

theorem documents_respelled : documents.Respelled respelledDocuments := by
  have htypes : documents.types = [("app\\report", report), ("app\\page", page),
      ("app\\stamped", stamped), ("app\\document", document)] := by decide +kernel
  have htypes' : respelledDocuments.types =
      [("app\\report",
          { report with parents := ["app\\PAGE"], traits := ["\\\\APP\\stamped"] }),
        ("app\\page", { page with parents := ["\\App\\Document", "COUNTABLE"] }),
        ("app\\stamped", stamped),
        ("app\\document", { document with parents := ["\\app\\report", "\\stringable"] })] := by
    decide +kernel
  rw [Respelled, htypes, htypes']
  refine .cons ⟨rfl, _, _, _, .refl _, ?_, ?_, rfl⟩ (.cons ⟨rfl, _, _, _, .refl _, ?_, .nil, rfl⟩
    (.cons ⟨rfl, _, _, _, .refl _, .nil, .nil, rfl⟩
      (.cons ⟨rfl, _, _, _, .refl _, ?_, .nil, rfl⟩ .nil)))
  · exact .cons (by decide +kernel) .nil
  · exact .cons (by decide +kernel) .nil
  · exact .cons (by decide +kernel) (.cons (by decide +kernel) .nil)
  · exact .cons (by decide +kernel) (.cons (by decide +kernel) .nil)

/-- A report is still a document, in a list of reports and for an access to its title. -/
theorem class_spelling_irrelevant_documents :
    documents.Respelled respelledDocuments ∧
      (TypeExpr.iterableOf (.classRef "App\\Document")).Renamed SameName
        (.iterableOf (.classRef "APP\\document")) ∧
      (Value.array [(.str "first", .object "App\\Report")]).Renamed SameName
        (.array [(.str "first", .object "\\\\app\\Report")]) ∧
      (TypeExpr.iterableOf (.classRef "App\\Document")).accepts documents
          (.array [(.str "first", .object "App\\Report")])
        = (TypeExpr.iterableOf (.classRef "APP\\document")).accepts respelledDocuments
            (.array [(.str "first", .object "\\\\app\\Report")]) ∧
      SameName "App\\Report" "\\\\app\\Report" ∧ SameName "App\\Document" "APP\\document" ∧
      respelledDocuments.isSubtype "\\\\app\\Report" "APP\\document" = true ∧
      (documents.accessError? (.classRef "App\\Document") "title" .any).isSome
        = (respelledDocuments.accessError? (.classRef "APP\\document") "title" .any).isSome := by
  obtain ⟨-, haccepts, hsubtype, -, htypes⟩ := class_spelling_irrelevant documents_respelled
  have hreport : SameName "App\\Report" "\\\\app\\Report" := by decide +kernel
  have hdocument : SameName "App\\Document" "APP\\document" := by decide +kernel
  have hlist : (TypeExpr.iterableOf (.classRef "App\\Document")).Renamed SameName
      (.iterableOf (.classRef "APP\\document")) := .iterableOf (.classRef hdocument)
  have hvalue : (Value.array [(.str "first", .object "App\\Report")]).Renamed SameName
      (.array [(.str "first", .object "\\\\app\\Report")]) :=
    .array rfl (List.forall_mem_singleton.mpr (.object hreport))
  refine ⟨documents_respelled, hlist, hvalue, haccepts _ _ _ _ hlist hvalue, hreport, hdocument, ?_,
    (htypes _ _ (.classRef hdocument)).2 _ _⟩
  rw [← hsubtype _ _ _ _ hreport hdocument]
  exact documents_isSubtype_report

end ClassTable

end TemplateContracts
