import TemplateContracts.Guard.Evaluation
import TemplateContracts.Guard.Synthesis

/-!
# Guards decide the declared contract

A declaration becomes up to three guards, which are written down from its text and, at render time,
read from that text again.  Nothing in the two halves says that the guards of one declaration never
fail together, or that what they let pass is what the declared type accepts.  Here the contract of a
declaration is stated from its text and the value of its variable alone, and the guards are shown to
decide it.

* `TypeDecl.AdmitsNull`, `TypeDecl.Violated` : the contract;
* `TypeDecl.violation?` : the error of a violated declaration, with `violation?_eq_some_iff` that
  ties it to the contract;
* `TypeDecl.evaluate_guards` : **the guards of a declaration give this error and no other**;
* `Template.checkGuards_instrument_entries` : so do the guards of a template, declaration by
  declaration, for the `types` statements at its top level.
-/

namespace TemplateContracts

/-! ### The contract of a declaration -/

namespace TypeDecl

/-- Null is allowed: the text is a type `?T` or the type `null`, or it is no type at all and its
first character that is not blank is a question mark. -/
inductive AdmitsNull (d : TypeDecl) : Prop where
  | nullable {inner : TypeExpr} : TypeExpr.parse d.typeText = .ok (.nullable inner) → AdmitsNull d
  | null : TypeExpr.parse d.typeText = .ok (.basic .null) → AdmitsNull d
  | unread {e : TypeSyntaxError} {blanks rest : List Char} :
      TypeExpr.parse d.typeText = .error e → d.typeText.toList = blanks ++ '?' :: rest →
      (∀ c ∈ blanks, Text.isBlank c = true) → AdmitsNull d

/-- The ways in which a context violates a declaration, each with its error. -/
inductive Violated (t : ClassTable) (context : Context) (place : Location) (d : TypeDecl) :
    Diagnostic → Prop where
  | missing : context.get? d.name.name = none → d.optional = false →
      Violated t context place d (.error .missingVariable
        ("Non-optional variable '" ++ d.name.name ++ "' is not set") place)
  | null : context.get? d.name.name = some .null → ¬ d.AdmitsNull →
      Violated t context place d (.error .nullVariable
        ("Non-nullable variable '" ++ d.name.name ++ "' is null") place)
  | mismatch {v : Value} {type : TypeExpr} : context.get? d.name.name = some v → v ≠ .null →
      TypeExpr.parse d.typeText = .ok type → type.accepts t v = false →
      Violated t context place d (.error .typeMismatch
        ("Type for variable '" ++ d.name.name ++ "' does not match") place)

/-- The error of a declaration in a context. -/
def violation? (t : ClassTable) (context : Context) (place : Location) (d : TypeDecl) :
    Option Diagnostic :=
  match context.get? d.name.name with
  | none =>
    if d.optional then none
    else some (.error .missingVariable (Guard.message ⟨d.name.name, .isSet⟩) place)
  | some v =>
    if v.isNull then
      if d.isNullable then none
      else some (.error .nullVariable (Guard.message ⟨d.name.name, .notNull⟩) place)
    else if d.type?.all (·.accepts t v) then none
    else some (.error .typeMismatch (Guard.message ⟨d.name.name, .hasType d.typeText⟩) place)

end TypeDecl

theorem Value.isNull_iff (v : Value) : v.isNull = true ↔ v = .null := by
  cases v <;> simp [Value.isNull]

namespace TypeDecl

variable {d : TypeDecl}

theorem type?_eq_some_iff {type : TypeExpr} :
    d.type? = some type ↔ TypeExpr.parse d.typeText = .ok type := by
  rw [type?, TypeExpr.parse?]
  cases TypeExpr.parse d.typeText <;> simp [Except.toOption]

theorem type?_eq_none_iff : d.type? = none ↔ ∃ e, TypeExpr.parse d.typeText = .error e := by
  rw [type?, TypeExpr.parse?]
  cases TypeExpr.parse d.typeText <;> simp [Except.toOption]

/-- A question mark behind blanks is what is left of a text without its leading blanks. -/
theorem head?_trimStart_iff (s : String) :
    (Text.trimStart s).head? = some '?' ↔
      ∃ blanks rest, s.toList = blanks ++ '?' :: rest ∧ ∀ c ∈ blanks, Text.isBlank c = true := by
  constructor
  · intro h
    obtain ⟨rest, hrest⟩ := List.head?_eq_some_iff.mp h
    refine ⟨s.toList.takeWhile Text.isBlank, rest, ?_, ?_⟩
    · rw [← hrest, Text.trimStart, List.takeWhile_append_dropWhile]
    · intro c hc
      exact List.all_eq_true.mp List.all_takeWhile c hc
  · rintro ⟨blanks, rest, hs, hblanks⟩
    rw [Text.trimStart, hs, List.dropWhile_append_of_pos hblanks]
    rfl

theorem isNullable_iff : d.isNullable = true ↔ d.AdmitsNull := by
  cases htype : d.type? with
  | some type =>
    have hparse := type?_eq_some_iff.mp htype
    simp only [isNullable, htype]
    constructor
    · intro h
      cases type with
      | nullable inner => exact .nullable hparse
      | basic b => cases b with
        | null => exact .null hparse
        | _ => cases h
      | _ => cases h
    · rintro (⟨h⟩ | h | ⟨h, -, -⟩) <;> rw [hparse] at h <;> cases h <;> rfl
  | none =>
    obtain ⟨e, hparse⟩ := type?_eq_none_iff.mp htype
    simp only [isNullable, htype, beq_iff_eq, head?_trimStart_iff]
    constructor
    · rintro ⟨blanks, rest, hs, hblanks⟩
      exact .unread hparse hs hblanks
    · rintro (⟨h⟩ | h | ⟨-, hs, hblanks⟩)
      · rw [hparse] at h; cases h
      · rw [hparse] at h; cases h
      · exact ⟨_, _, hs, hblanks⟩

theorem violation?_eq_some_iff {t : ClassTable} {context : Context} {place : Location}
    {e : Diagnostic} :
    d.violation? t context place = some e ↔ d.Violated t context place e := by
  constructor
  · intro h
    unfold violation? at h
    cases hv : context.get? d.name.name with
    | none =>
      simp only [hv] at h
      cases ho : d.optional with
      | true => simp [ho] at h
      | false =>
        simp only [ho, Bool.false_eq_true, if_false, Option.some.injEq] at h
        subst h
        exact .missing hv ho
    | some v =>
      simp only [hv] at h
      by_cases hnull : v.isNull = true
      · obtain rfl := v.isNull_iff.mp hnull
        by_cases hn : d.isNullable = true
        · simp [hn, Value.isNull] at h
        · simp only [hnull, hn, if_true, Option.some.injEq, Bool.false_eq_true, if_false] at h
          subst h
          exact .null hv fun ha => hn (isNullable_iff.mpr ha)
      · simp only [hnull, Bool.false_eq_true, if_false] at h
        cases htype : d.type? with
        | none => simp [htype] at h
        | some type =>
          cases hacc : type.accepts t v with
          | true => simp [htype, hacc] at h
          | false =>
            simp only [htype, Option.all_some, hacc, Bool.false_eq_true, if_false,
              Option.some.injEq] at h
            subst h
            exact .mismatch hv (fun he => hnull (v.isNull_iff.mpr he))
              (type?_eq_some_iff.mp htype) hacc
  · rintro (⟨hv, ho⟩ | ⟨hv, hn⟩ | ⟨hv, hnull, hparse, hacc⟩)
    · simp only [violation?, hv, ho, Bool.false_eq_true, if_false]
      rfl
    · have hnot : ¬ d.isNullable = true := fun h => hn (isNullable_iff.mp h)
      simp only [violation?, hv, Value.isNull, if_true, hnot, Bool.false_eq_true, if_false]
      rfl
    · rename_i v type
      have hsome : ¬ v.isNull = true := fun h => hnull (v.isNull_iff.mp h)
      simp only [violation?, hv, hsome, type?_eq_some_iff.mpr hparse, Option.all_some, hacc,
        Bool.false_eq_true, if_false]
      rfl

end TypeDecl

/-- Null has the types that are nullable, and `mixed`. -/
theorem TypeExpr.accepts_null (t : ClassTable) {type : TypeExpr} (h : type ≠ .mixed) :
    type.accepts t .null = type.isNullable := by
  cases type with
  | basic b =>
    cases b with
    | mixed => exact absurd rfl h
    | _ => rfl
  | nullable inner => rfl
  | iterableOf value => rfl
  | keyedIterable key value => rfl
  | classRef name => rfl

/-- A present value passes exactly if it has the declared type. -/
theorem TypeDecl.violation?_eq_none_iff {d : TypeDecl} {t : ClassTable} {context : Context}
    {v : Value} {type : TypeExpr} (hv : context.get? d.name.name = some v)
    (hparse : TypeExpr.parse d.typeText = .ok type) (hmixed : type ≠ .mixed) (place : Location) :
    d.violation? t context place = none ↔ type.accepts t v = true := by
  have htype := type?_eq_some_iff.mpr hparse
  by_cases hnull : v.isNull = true
  · obtain rfl := v.isNull_iff.mp hnull
    have hn : d.isNullable = type.isNullable := by simp only [isNullable, htype]
    rw [TypeExpr.accepts_null t hmixed]
    cases hn' : type.isNullable <;> simp [violation?, hv, Value.isNull, hn, hn']
  · cases hacc : type.accepts t v <;> simp [violation?, hv, hnull, htype, hacc]

/-! ### The guards of a declaration -/

namespace Guard

variable (t : ClassTable) (context : Context) (place : Location)

theorem evaluate_append (gs gs' : List Guard) :
    evaluate t context place (gs ++ gs')
      = evaluate t context place gs ++ evaluate t context place gs' := by
  simp only [evaluate, runAll, List.filterMap_append, List.map_append]

/-- A guard that stands under a condition. -/
theorem evaluate_ite_nil (b : Bool) (g : Guard) :
    evaluate t context place (if b then [] else [g])
      = if b then [] else ((failure? t g.check (context.get? g.variableName)).map fun code =>
          Diagnostic.error code g.message place).toList := by
  cases b with
  | true => rfl
  | false =>
    cases h : failure? t g.check (context.get? g.variableName) <;> simp [evaluate, runAll, run, h]

theorem failure?_notNull (v : Value) :
    failure? t .notNull (some v) = if v.isNull then some .nullVariable else none := by
  cases v <;> rfl

end Guard

/-- A declaration of exactly `mixed` accepts every value. -/
theorem TypeDecl.all_accepts_of_isMixed {d : TypeDecl} (h : d.isMixed = true) (t : ClassTable)
    (v : Value) : d.type?.all (·.accepts t v) = true := by
  rw [isMixed, Option.any_eq_true] at h
  obtain ⟨type, htype, hmixed⟩ := h
  rw [htype, Option.all_some]
  cases type with
  | basic b => cases b <;> first | rfl | cases hmixed
  | _ => cases hmixed

/-- **The guards of a declaration give its error and no other.**  Which guard can fail is settled by
the variable: an absent one fails the first, null the second, any other value the third. -/
theorem TypeDecl.evaluate_guards (t : ClassTable) (context : Context) (place : Location)
    (d : TypeDecl) :
    Guard.evaluate t context place d.guards = (d.violation? t context place).toList := by
  rw [guards, Guard.evaluate_append, Guard.evaluate_append, Guard.evaluate_ite_nil,
    Guard.evaluate_ite_nil, Guard.evaluate_ite_nil]
  unfold violation?
  cases hv : context.get? d.name.name with
  | none => cases d.optional <;> simp [Guard.failure?]
  | some v =>
    by_cases hnull : v.isNull = true
    · obtain rfl := v.isNull_iff.mp hnull
      cases d.isNullable <;> simp [Guard.failure?, Value.isNull]
    · have hfirst : Guard.failure? t .isSet (some v) = none := rfl
      have hthird : Guard.failure? t (.hasType d.typeText) (some v)
          = if d.type?.all (·.accepts t v) then none else some .typeMismatch := by
        have hsome : v.isNull = false := Bool.not_eq_true _ ▸ hnull
        simp only [Guard.failure?, hsome, Bool.false_or]
        rfl
      simp only [hfirst, Guard.failure?_notNull, hthird, hnull]
      cases hmixed : d.isMixed with
      | true => simp [d.all_accepts_of_isMixed hmixed t v]
      | false => cases d.type?.all (·.accepts t v) <;> simp

/-! ### The guards of a template -/

/-- The guards of a contract, declaration by declaration. -/
theorem Contract.evaluate_synthesize (t : ClassTable) (context : Context) (place : Location)
    (a : Contract) :
    Guard.evaluate t context place a.synthesize
      = a.mapping.filterMap (·.violation? t context place) := by
  rw [synthesize]
  induction a.mapping with
  | nil => rfl
  | cons d rest ih =>
    rw [List.flatMap_cons, Guard.evaluate_append, ih, d.evaluate_guards t context place,
      List.filterMap_cons]
    cases d.violation? t context place <;> rfl

namespace Template

/-- The declarations of the `types` statements at the top level, in order and with their places. -/
def declarations (m : Template) : List (Location × TypeDecl) :=
  m.body.flatMap fun
    | .types a => a.mapping.map fun d => (a.span.inTemplate m.name, d)
    | _ => []

/-- The template with its `types` statements at the top level and nothing else. -/
def contractsOnly (m : Template) : Template :=
  { m with body := m.body.filter fun | .types _ => true | _ => false }

/-- The guards that are put at the top level fail where the declarations there are violated. -/
theorem map_snd_runGuards_instrument (t : ClassTable) (context : Context) {m : Template}
    (htop : ∀ a guards, Stmt.guarded a guards ∉ m.body) :
    (m.instrument.runGuards t context).map Prod.snd
      = m.declarations.filterMap (fun (place, d) => d.violation? t context place) := by
  obtain ⟨name, body, span⟩ := m
  induction body with
  | nil => rfl
  | cons s rest ih =>
    have hrest := ih fun a guards h => htop a guards (List.mem_cons_of_mem s h)
    simp only [runGuards, declarations, instrument] at hrest ⊢
    rw [Stmt.instrumentBody, List.flatMap_cons, List.flatMap_cons, List.map_append,
      List.filterMap_append, hrest]
    congr 1
    cases s with
    | types a =>
      have hguards := a.evaluate_synthesize t context (a.span.inTemplate name)
      simp only [Stmt.instrument, List.filterMap_map]
      exact hguards
    | guarded a guards => exact absurd List.mem_cons_self (htop a guards)
    | _ => rfl

theorem declarations_contractsOnly (m : Template) :
    m.contractsOnly.declarations = m.declarations := by
  obtain ⟨name, body, span⟩ := m
  simp only [contractsOnly, declarations]
  induction body with
  | nil => rfl
  | cons s rest ih =>
    cases s with
    | types a => rw [List.filter_cons_of_pos rfl, List.flatMap_cons, List.flatMap_cons, ih]
    | _ =>
      rw [List.filter_cons_of_neg Bool.false_ne_true, List.flatMap_cons, List.nil_append, ih]

/-- **Guards decide the declared contract.**  The errors at render time are those of the
declarations at the top level, in their order; a declaration has an error exactly if it is violated,
and at most one; a value that is present passes exactly if it has the declared type; and what stands
inside loops, branches and macros has no part in it. -/
theorem checkGuards_instrument_entries (t : ClassTable) (context : Context) (m : Template)
    (htop : ∀ a guards, Stmt.guarded a guards ∉ m.body) :
    (m.instrument.checkGuards t context).entries
        = m.declarations.filterMap (fun (place, d) => d.violation? t context place) ∧
      (∀ (place : Location) (d : TypeDecl) (e : Diagnostic),
        d.violation? t context place = some e ↔ d.Violated t context place e) ∧
      (∀ (place : Location) (d : TypeDecl) (v : Value) (type : TypeExpr),
        context.get? d.name.name = some v → TypeExpr.parse d.typeText = .ok type →
        type ≠ .mixed → (d.violation? t context place = none ↔ type.accepts t v = true)) ∧
      m.instrument.checkGuards t context = m.contractsOnly.instrument.checkGuards t context := by
  have hrun := map_snd_runGuards_instrument t context htop
  refine ⟨?_, ?_, ?_, ?_⟩
  · rw [checkGuards, Diagnostics.entries_ofList, hrun]
  · intro place d e
    exact TypeDecl.violation?_eq_some_iff
  · intro place d v type hv hparse hmixed
    exact TypeDecl.violation?_eq_none_iff hv hparse hmixed place
  · have htop' : ∀ a guards, Stmt.guarded a guards ∉ m.contractsOnly.body :=
      fun a guards h => htop a guards (List.mem_filter.mp h).1
    rw [checkGuards, checkGuards, hrun, map_snd_runGuards_instrument t context htop',
      declarations_contractsOnly]

/-- Five declarations at the top level, one of them without a readable type, and one in a macro. -/
def declaring : Template where
  name := "page"
  body :=
    [.types ⟨[⟨⟨"count", .ofLine 1⟩, "?number", false⟩, ⟨⟨"title", .ofLine 1⟩, "string", false⟩,
      ⟨⟨"note", .ofLine 1⟩, " ? string", false⟩], .ofLine 1⟩,
     .macroDecl ⟨"m", .ofLine 2⟩ []
      [.types ⟨[⟨⟨"inner", .ofLine 3⟩, "string", false⟩], .ofLine 3⟩] (.ofLine 2),
     .types ⟨[⟨⟨"any", .ofLine 4⟩, "mixed", false⟩, ⟨⟨"rest", .ofLine 4⟩, "object", true⟩],
      .ofLine 4⟩]
  span := .ofLine 1

theorem checkGuards_instrument_declaring :
    (∀ a guards, Stmt.guarded a guards ∉ declaring.body) ∧
      (declaring.instrument.checkGuards {}
          [("count", .string "2"), ("note", .null), ("any", .null)]).entries
        = [.error .typeMismatch (Guard.message ⟨"count", .hasType "?number"⟩) ⟨"page", 1⟩,
           .error .missingVariable (Guard.message ⟨"title", .isSet⟩) ⟨"page", 1⟩,
           .error .nullVariable (Guard.message ⟨"any", .notNull⟩) ⟨"page", 4⟩] := by
  have htop : ∀ a guards, Stmt.guarded a guards ∉ declaring.body := by
    intro a guards h
    simp [declaring] at h
  refine ⟨htop, ?_⟩
  rw [(checkGuards_instrument_entries _ _ declaring htop).1]
  decide

end Template

end TemplateContracts
