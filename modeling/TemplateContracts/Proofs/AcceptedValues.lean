import Mathlib.Data.List.Zip
import TemplateContracts.TypeExpr.Matching

/-!
# Accepted values

Whether a value has a type depends on the classes of its objects, on the classes that the type
names, and on what a table says about both.  If all three are changed, and what the old table says
about the old classes the new one says about those in their places, an accepted value stays accepted.
Subtypes in the place of types, tables with more descriptions, and names in another spelling are
three such changes.

* `TypeExpr.accepts_nullable_iff`, `TypeExpr.accepts_classRef_iff`, `TypeExpr.accepts_iterableOf_iff`,
  `TypeExpr.accepts_keyedIterable_iff` : when a value is accepted, by the form of the type;
* `TypeExpr.Renamed`, `Value.Renamed` : a type and a value with other classes in their places;
* `ClassTable.Carries` : what one table says about classes, another one says about the classes in
  their places;
* `ClassTable.Carries.accepts` : **tables that carry over keep values accepted**.
-/

namespace TemplateContracts

/-! ### When a value is accepted -/

namespace TypeExpr

variable {t : ClassTable} {v : Value}

theorem accepts_nullable_iff {inner : TypeExpr} :
    (TypeExpr.nullable inner).accepts t v = true ↔
      v.isNull = true ∨ inner.accepts t v = true := by
  rw [accepts, Bool.or_eq_true]

theorem accepts_classRef_iff {name : String} :
    (TypeExpr.classRef name).accepts t v = true ↔
      ∃ c, v.className? = some c ∧ t.isSubtype c name = true := by
  rw [accepts, Option.any_eq_true]

theorem accepts_iterableOf_iff {value : TypeExpr} :
    (TypeExpr.iterableOf value).accepts t v = true ↔
      ∃ entries, v.entries? = some entries ∧ ∀ e ∈ entries, value.accepts t e.2 = true := by
  rw [accepts]
  cases v.entries? <;> simp

theorem accepts_keyedIterable_iff {key value : TypeExpr} :
    (TypeExpr.keyedIterable key value).accepts t v = true ↔
      ∃ entries, v.entries? = some entries ∧
        ∀ e ∈ entries, value.accepts t e.2 = true ∧ key.accepts t e.1.toValue = true := by
  rw [accepts]
  cases v.entries? <;> simp

theorem accepts_string_of_className? {c : String} (hc : v.className? = some c)
    (h : t.isStringable c = true) : (TypeExpr.basic .string).accepts t v = true := by
  cases v with
  | object d =>
    cases hc
    exact h
  | traversable d entries =>
    cases hc
    exact h
  | _ => cases hc

end TypeExpr

/-! ### Other classes in the same places -/

/-- `S.Renamed R T` : the types differ in the names of classes only, and there as `R` allows. -/
inductive TypeExpr.Renamed (R : String → String → Prop) : TypeExpr → TypeExpr → Prop where
  | basic (b : BasicType) : Renamed R (.basic b) (.basic b)
  | nullable {S T : TypeExpr} : Renamed R S T → Renamed R (.nullable S) (.nullable T)
  | iterableOf {S T : TypeExpr} : Renamed R S T → Renamed R (.iterableOf S) (.iterableOf T)
  | keyedIterable {J K S T : TypeExpr} : Renamed R J K → Renamed R S T →
      Renamed R (.keyedIterable J S) (.keyedIterable K T)
  | classRef {c d : String} : R c d → Renamed R (.classRef c) (.classRef d)

theorem TypeExpr.Renamed.refl {R : String → String → Prop} (hR : ∀ c, R c c) (T : TypeExpr) :
    T.Renamed R T := by
  induction T with
  | basic b => exact .basic b
  | nullable inner ih => exact .nullable ih
  | iterableOf value ih => exact .iterableOf ih
  | keyedIterable key value ihkey ihvalue => exact .keyedIterable ihkey ihvalue
  | classRef c => exact .classRef (hR c)

theorem TypeExpr.Renamed.symm {R : String → String → Prop} (hR : ∀ {c d}, R c d → R d c)
    {S T : TypeExpr} (h : S.Renamed R T) : T.Renamed R S := by
  induction h with
  | basic b => exact .basic b
  | nullable _ ih => exact .nullable ih
  | iterableOf _ ih => exact .iterableOf ih
  | keyedIterable _ _ ihkey ihvalue => exact .keyedIterable ihkey ihvalue
  | classRef hcd => exact .classRef (hR hcd)

namespace Value

/-- An entry of one list has a partner under the same key in the other one. -/
theorem exists_partner {R : Value → Value → Prop} {entries entries' : List (Key × Value)}
    (hkeys : entries.map Prod.fst = entries'.map Prod.fst)
    (h : ∀ p ∈ entries.zip entries', R p.1.2 p.2.2) {e' : Key × Value} (he' : e' ∈ entries') :
    ∃ e ∈ entries, e.1 = e'.1 ∧ R e.2 e'.2 := by
  induction entries generalizing entries' with
  | nil =>
    rw [List.map_nil, eq_comm, List.map_eq_nil_iff] at hkeys
    rw [hkeys] at he'
    cases he'
  | cons e entries ih =>
    cases entries' with
    | nil => cases he'
    | cons first entries' =>
      obtain ⟨hkey, hkeys⟩ := List.cons.inj hkeys
      rcases List.mem_cons.mp he' with rfl | he'
      · exact ⟨e, List.mem_cons_self, hkey, h (e, e') List.mem_cons_self⟩
      · obtain ⟨partner, hmem, hpartner⟩ :=
          ih hkeys (fun p hp => h p (List.mem_cons_of_mem _ hp)) he'
        exact ⟨partner, List.mem_cons_of_mem _ hmem, hpartner⟩

/-- `v.Renamed R w` : the values differ in the classes of objects only, at any depth, and there as
`R` allows. -/
inductive Renamed (R : String → String → Prop) : Value → Value → Prop where
  | same (v : Value) : Renamed R v v
  | object {c d : String} : R c d → Renamed R (.object c) (.object d)
  | array {entries entries' : List (Key × Value)} :
      entries.map Prod.fst = entries'.map Prod.fst →
      (∀ p ∈ entries.zip entries', Renamed R p.1.2 p.2.2) →
      Renamed R (.array entries) (.array entries')
  | traversable {c d : String} {entries entries' : List (Key × Value)} : R c d →
      entries.map Prod.fst = entries'.map Prod.fst →
      (∀ p ∈ entries.zip entries', Renamed R p.1.2 p.2.2) →
      Renamed R (.traversable c entries) (.traversable d entries')

namespace Renamed

variable {R : String → String → Prop} {v w : Value}

theorem isNull_eq (h : v.Renamed R w) : w.isNull = v.isNull := by
  cases h <;> rfl

theorem className? (h : v.Renamed R w) (hR : ∀ c, R c c) {c : String}
    (hc : v.className? = some c) : ∃ d, w.className? = some d ∧ R c d := by
  cases h with
  | same => exact ⟨c, hc, hR c⟩
  | object hcd =>
    cases hc
    exact ⟨_, rfl, hcd⟩
  | array _ _ => cases hc
  | traversable hcd _ _ =>
    cases hc
    exact ⟨_, rfl, hcd⟩

theorem entries? (h : v.Renamed R w) {entries : List (Key × Value)}
    (hv : v.entries? = some entries) :
    ∃ entries', w.entries? = some entries' ∧
      ∀ e' ∈ entries', ∃ e ∈ entries, e.1 = e'.1 ∧ e.2.Renamed R e'.2 := by
  cases h with
  | same => exact ⟨entries, hv, fun e he => ⟨e, he, rfl, .same e.2⟩⟩
  | object _ => cases hv
  | array hkeys hvalues =>
    cases hv
    exact ⟨_, rfl, fun _ => exists_partner hkeys hvalues⟩
  | traversable _ hkeys hvalues =>
    cases hv
    exact ⟨_, rfl, fun _ => exists_partner hkeys hvalues⟩

theorem symm (hR : ∀ {c d}, R c d → R d c) (h : v.Renamed R w) : w.Renamed R v := by
  -- pairs of entries are met the other way round
  have swapped : ∀ {xs ys : List (Key × Value)}, (∀ p ∈ xs.zip ys, p.2.2.Renamed R p.1.2) →
      ∀ p ∈ ys.zip xs, p.1.2.Renamed R p.2.2 := by
    intro xs ys hall p hp
    rw [← List.zip_swap, List.mem_map] at hp
    obtain ⟨q, hq, rfl⟩ := hp
    exact hall q hq
  induction h with
  | same v => exact .same v
  | object hcd => exact .object (hR hcd)
  | array hkeys _ ih => exact .array hkeys.symm (swapped ih)
  | traversable hcd hkeys _ ih => exact .traversable (hR hcd) hkeys.symm (swapped ih)

end Renamed

end Value

/-! ### Tables that carry over -/

namespace ClassTable

/-- What `t` says about classes, `t'` says about the classes in their places, where `R` allows what
stands in the place of the class of an object, and `Q` in the place of a class in a type. -/
structure Carries (t t' : ClassTable) (R Q : String → String → Prop) : Prop where
  refl : ∀ c, R c c
  isSubtype : ∀ {a b c d : String}, R a b → Q c d → t.isSubtype a c = true →
    t'.isSubtype b d = true
  isStringable : ∀ {c d : String}, R c d → t.isStringable c = true → t'.isStringable d = true

namespace Carries

variable {t t' : ClassTable} {R Q : String → String → Prop} {v w : Value}

/-- Only `string` asks the table. -/
theorem accepts_basic (h : t.Carries t' R Q) (hvalue : v.Renamed R w) (b : BasicType)
    (hv : b.accepts t v = true) : b.accepts t' w = true := by
  cases b with
  | string =>
    cases hc : v.className? with
    | some c =>
      obtain ⟨d, hd, hcd⟩ := hvalue.className? h.refl hc
      have hstringable : t.isStringable c = true := by
        cases v <;> cases hc <;> exact hv
      exact TypeExpr.accepts_string_of_className? hd (h.isStringable hcd hstringable)
    | none =>
      cases hvalue with
      | same => cases v <;> first | exact hv | cases hc
      | object _ => cases hc
      | array _ _ => exact hv
      | traversable _ _ _ => cases hc
  | _ => cases hvalue <;> exact hv

/-- **Tables that carry over keep values accepted.** -/
theorem accepts (h : t.Carries t' R Q) {S T : TypeExpr} (htype : S.Renamed Q T)
    (hvalue : v.Renamed R w) (hv : S.accepts t v = true) : T.accepts t' w = true := by
  -- the types get smaller from a value to its entries, so the induction is on the types alone
  induction htype generalizing v w with
  | basic b => exact h.accepts_basic hvalue b hv
  | nullable _ ih =>
    rw [TypeExpr.accepts_nullable_iff] at hv ⊢
    rw [hvalue.isNull_eq]
    exact hv.imp_right (ih hvalue)
  | classRef hnames =>
    rw [TypeExpr.accepts_classRef_iff] at hv ⊢
    obtain ⟨c, hc, hsub⟩ := hv
    obtain ⟨d, hd, hcd⟩ := hvalue.className? h.refl hc
    exact ⟨d, hd, h.isSubtype hcd hnames hsub⟩
  | iterableOf _ ih =>
    rw [TypeExpr.accepts_iterableOf_iff] at hv ⊢
    obtain ⟨entries, hentries, hall⟩ := hv
    obtain ⟨entries', hentries', hpartner⟩ := hvalue.entries? hentries
    refine ⟨entries', hentries', fun e' he' => ?_⟩
    obtain ⟨e, he, -, hrenamed⟩ := hpartner e' he'
    exact ih hrenamed (hall e he)
  | keyedIterable _ _ ihkey ihvalue =>
    rw [TypeExpr.accepts_keyedIterable_iff] at hv ⊢
    obtain ⟨entries, hentries, hall⟩ := hv
    obtain ⟨entries', hentries', hpartner⟩ := hvalue.entries? hentries
    refine ⟨entries', hentries', fun e' he' => ?_⟩
    obtain ⟨e, he, hkey, hrenamed⟩ := hpartner e' he'
    exact ⟨ihvalue hrenamed (hall e he).1, ihkey (hkey ▸ .same _) (hall e he).2⟩

end Carries

end ClassTable

end TemplateContracts
