import TemplateContracts.Proofs.Induction
import TemplateContracts.Proofs.Inspections

/-!
# Calls and the declarations they are checked against

A call is checked against the signature of a macro, and the signature of a macro that reads
`varargs` has one parameter more than its declaration.  Here the checks are stated about the
declaration: the additional parameter has no influence on any of them.

* `Expr.parts`, `Stmt.parts` : what stands directly inside an expression or a statement;
* `Expr.Within`, `Stmt.Mentions` : what stands inside at any depth.  The search for `varargs` goes
  over a list of expressions, and the two agree (`Stmt.mentionedIn_iff`);
* `LateIn` : the first element of a kind that stands behind one of the other kind.  Both checks of
  order, of arguments and of parameters, look for it;
* `Macro.refusedNames` : the names that a call may not pass;
* `Macro.call_agrees_with_declaration` : **what is reported of a call and of a declaration, from the
  declaration alone**.
-/

namespace TemplateContracts

/-! ### What stands inside an expression -/

namespace Expr

/-- The expressions directly inside an expression. -/
def parts : Expr → List Expr
  | array _ items => items
  | hash _ pairs => pairs.flatMap fun p => [p.1, p.2]
  | member _ receiver _ _ arguments => receiver :: arguments.map (·.value)
  | macroCall _ _ _ arguments => arguments.map (·.value)
  | function _ _ arguments => arguments.map (·.value)
  | filter _ input _ arguments => input :: arguments.map (·.value)
  | test _ input _ arguments => input :: arguments.map (·.value)
  | lambda _ _ body => [body]
  | binary _ _ left right => [left, right]
  | unary _ _ operand => [operand]
  | conditional _ condition yes no => [condition, yes, no]
  | null _ | bool _ _ | number _ _ | string _ _ | name _ _ => []

/-- `x.Within e` : the expression `x` is `e` or stands in it, at any depth. -/
inductive Within (x : Expr) : Expr → Prop where
  | here : Within x x
  | inside {e p : Expr} : p ∈ e.parts → Within x p → Within x e

theorem pairsExprs_eq (pairs : List (Expr × Expr)) :
    pairsExprs pairs = (pairs.flatMap fun p => [p.1, p.2]).flatMap subexprs := by
  induction pairs with
  | nil => rfl
  | cons p rest ih =>
    obtain ⟨k, v⟩ := p
    simp [pairsExprs, ih]

theorem argumentsExprs_eq (arguments : List (Argument Expr)) :
    argumentsExprs arguments = (arguments.map (·.value)).flatMap subexprs := by
  induction arguments with
  | nil => rfl
  | cons a rest ih =>
    obtain ⟨n, e⟩ := a
    rw [argumentsExprs, ih, List.map_cons, List.flatMap_cons]

/-- The list of a tree is its root and the lists of its parts. -/
theorem subexprs_eq (e : Expr) : e.subexprs = e :: e.parts.flatMap subexprs := by
  cases e with
  | array s items => rw [subexprs, itemsExprs_eq, parts]
  | hash s pairs => rw [subexprs, pairsExprs_eq, parts]
  | member s receiver attr access arguments =>
    rw [subexprs, argumentsExprs_eq, parts, List.flatMap_cons]
  | macroCall s target n arguments => rw [subexprs, argumentsExprs_eq, parts]
  | function s n arguments => rw [subexprs, argumentsExprs_eq, parts]
  | filter s input n arguments => rw [subexprs, argumentsExprs_eq, parts, List.flatMap_cons]
  | test s input n arguments => rw [subexprs, argumentsExprs_eq, parts, List.flatMap_cons]
  | _ => simp [subexprs, parts]

theorem within_of_mem_subexprs {x e : Expr} (h : x ∈ e.subexprs) : x.Within e := by
  -- the hypothesis for the parts is what each case gives
  have step : ∀ e : Expr, (∀ p ∈ e.parts, x ∈ p.subexprs → x.Within p) →
      x ∈ e.subexprs → x.Within e := by
    intro e ih hx
    rw [subexprs_eq] at hx
    rcases List.mem_cons.mp hx with rfl | hx
    · exact .here
    · obtain ⟨p, hp, hxp⟩ := List.mem_flatMap.mp hx
      exact .inside hp (ih p hp hxp)
  have arguments : ∀ arguments : List (Argument Expr),
      (∀ a ∈ arguments, x ∈ a.value.subexprs → x.Within a.value) →
      ∀ p ∈ arguments.map (·.value), x ∈ p.subexprs → x.Within p :=
    fun _ ih => List.forall_mem_map.mpr ih
  induction e with
  | array s items ih => exact step _ ih h
  | hash s pairs ih =>
    refine step _ (fun p hp => ?_) h
    obtain ⟨q, hq, hpq⟩ := List.mem_flatMap.mp hp
    rcases List.mem_cons.mp hpq with rfl | hpq
    · exact (ih q hq).1
    · rw [List.mem_singleton.mp hpq]
      exact (ih q hq).2
  | member s receiver attr access args ihr iha =>
    exact step _ (List.forall_mem_cons.mpr ⟨ihr, arguments args iha⟩) h
  | macroCall s target n args iha => exact step _ (arguments args iha) h
  | function s n args iha => exact step _ (arguments args iha) h
  | filter s input n args ihi iha =>
    exact step _ (List.forall_mem_cons.mpr ⟨ihi, arguments args iha⟩) h
  | test s input n args ihi iha =>
    exact step _ (List.forall_mem_cons.mpr ⟨ihi, arguments args iha⟩) h
  | lambda s params body ih => exact step _ (by simpa [parts] using ih) h
  | binary s op left right ihl ihr => exact step _ (by simpa [parts] using ⟨ihl, ihr⟩) h
  | unary s op operand ih => exact step _ (by simpa [parts] using ih) h
  | conditional s condition yes no ihc ihy ihn =>
    exact step _ (by simpa [parts] using ⟨ihc, ihy, ihn⟩) h
  | _ => exact step _ (by simp [parts]) h

/-- The list of a tree holds what stands in it at any depth. -/
theorem mem_subexprs_iff {x e : Expr} : x ∈ e.subexprs ↔ x.Within e := by
  refine ⟨within_of_mem_subexprs, fun h => ?_⟩
  induction h with
  | here =>
    rw [subexprs_eq]
    exact List.mem_cons_self
  | @inside e p hp _ ih =>
    rw [subexprs_eq e]
    exact List.mem_cons_of_mem _ (List.mem_flatMap.mpr ⟨p, hp, ih⟩)

end Expr

/-! ### What stands inside a statement -/

namespace Stmt

/-- The expressions that a statement holds itself, not in a statement inside it. -/
def ownExprs : Stmt → List Expr
  | text _ _ | types _ | guarded _ _ => []
  | print e _ => [e]
  | assign _ values _ => values
  | loop _ _ source _ _ _ => [source]
  | branch branches _ _ => branches.map (·.condition)
  | macroDecl _ params _ _ => MacroParam.defaults params
  | imports i => [i.template]

/-- The statements directly inside a statement. -/
def parts : Stmt → List Stmt
  | loop _ _ _ body orElse _ => body ++ orElse
  | branch branches orElse _ => branches.flatMap (·.body) ++ orElse
  | macroDecl _ _ body _ => body
  | text _ _ | print _ _ | types _ | guarded _ _ | assign _ _ _ | imports _ => []

/-- A variable stands in a statement, at any depth. -/
inductive Mentions (x : String) : Stmt → Prop where
  | own {s : Stmt} {e : Expr} {sp : Span} :
      e ∈ s.ownExprs → (Expr.name sp x).Within e → Mentions x s
  | inner {s t : Stmt} : t ∈ s.parts → Mentions x t → Mentions x s

/-- A variable stands in one of the statements, at any depth. -/
def MentionedIn (x : String) (body : List Stmt) : Prop := ∃ s ∈ body, s.Mentions x

theorem bodyExprs_eq (body : List Stmt) : bodyExprs body = body.flatMap exprs := by
  induction body with
  | nil => rfl
  | cons s rest ih => rw [bodyExprs, ih, List.flatMap_cons]

theorem branchesExprs_eq (branches : List (Branch Stmt)) :
    branchesExprs branches
      = branches.flatMap fun b => b.condition.subexprs ++ b.body.flatMap exprs := by
  induction branches with
  | nil => rfl
  | cons b rest ih =>
    obtain ⟨condition, body⟩ := b
    rw [branchesExprs, ih, bodyExprs_eq, List.flatMap_cons]

/-- The expressions of branches: of the conditions, and of the statements under them. -/
theorem mem_branchesExprs_iff {e : Expr} {branches : List (Branch Stmt)} :
    e ∈ branchesExprs branches ↔
      (∃ o ∈ branches.map (·.condition), e ∈ o.subexprs) ∨
        ∃ t ∈ branches.flatMap (·.body), e ∈ t.exprs := by
  rw [branchesExprs_eq, List.mem_flatMap]
  constructor
  · rintro ⟨b, hb, he⟩
    rcases List.mem_append.mp he with he | he
    · exact .inl ⟨b.condition, List.mem_map_of_mem hb, he⟩
    · obtain ⟨t, ht, he⟩ := List.mem_flatMap.mp he
      exact .inr ⟨t, List.mem_flatMap.mpr ⟨b, hb, ht⟩, he⟩
  · rintro (⟨o, ho, he⟩ | ⟨t, ht, he⟩)
    · obtain ⟨b, hb, rfl⟩ := List.mem_map.mp ho
      exact ⟨b, hb, List.mem_append_left _ he⟩
    · obtain ⟨b, hb, ht⟩ := List.mem_flatMap.mp ht
      exact ⟨b, hb, List.mem_append_right _ (List.mem_flatMap.mpr ⟨t, ht, he⟩)⟩

/-- The expressions of a statement are those that it holds itself, and those of its parts. -/
theorem mem_exprs_iff {e : Expr} {s : Stmt} :
    e ∈ s.exprs ↔ (∃ o ∈ s.ownExprs, e ∈ o.subexprs) ∨ ∃ t ∈ s.parts, e ∈ t.exprs := by
  cases s with
  | loop key value source body orElse sp =>
    simp only [exprs, ownExprs, parts, bodyExprs_eq, List.mem_append, List.mem_flatMap,
      List.mem_singleton, exists_eq_left, or_and_right, exists_or, or_assoc]
  | branch branches orElse sp =>
    simp only [exprs, ownExprs, parts, bodyExprs_eq, List.mem_append, mem_branchesExprs_iff,
      List.mem_flatMap (f := exprs), or_and_right, exists_or, or_assoc]
  | macroDecl name params body sp =>
    simp only [exprs, ownExprs, parts, bodyExprs_eq, List.mem_append, List.mem_flatMap]
  | _ => simp [exprs, ownExprs, parts]

theorem mentions_of_mem_exprs {x : String} {sp : Span} {s : Stmt} (h : .name sp x ∈ s.exprs) :
    s.Mentions x := by
  have step : ∀ s : Stmt, (∀ t ∈ s.parts, .name sp x ∈ t.exprs → t.Mentions x) →
      .name sp x ∈ s.exprs → s.Mentions x := by
    intro s ih hx
    rcases mem_exprs_iff.mp hx with ⟨o, ho, hx⟩ | ⟨t, ht, hx⟩
    · exact .own ho (Expr.mem_subexprs_iff.mp hx)
    · exact .inner ht (ih t ht hx)
  induction s with
  | loop key value source body orElse sp ihb ihe =>
    exact step _ (List.forall_mem_append.mpr ⟨ihb, ihe⟩) h
  | branch branches orElse sp ihb ihe =>
    refine step _ (List.forall_mem_append.mpr ⟨fun t ht => ?_, ihe⟩) h
    obtain ⟨b, hb, ht⟩ := List.mem_flatMap.mp ht
    exact ihb b hb t ht
  | macroDecl name params body sp ih => exact step _ ih h
  | _ => exact step _ nofun h

theorem mentions_iff {x : String} {s : Stmt} : s.Mentions x ↔ ∃ sp, .name sp x ∈ s.exprs := by
  constructor
  · intro h
    induction h with
    | @own s e sp he hx =>
      exact ⟨sp, mem_exprs_iff.mpr (.inl ⟨e, he, Expr.mem_subexprs_iff.mpr hx⟩)⟩
    | @inner s t ht _ ih =>
      obtain ⟨sp, hx⟩ := ih
      exact ⟨sp, mem_exprs_iff.mpr (.inr ⟨t, ht, hx⟩)⟩
  · rintro ⟨sp, hx⟩
    exact mentions_of_mem_exprs hx

/-- The search through the list of expressions finds a variable wherever it stands. -/
theorem mentionedIn_iff (x : String) (body : List Stmt) :
    ((bodyExprs body).any fun e => e.asName? == some x) = true ↔ MentionedIn x body := by
  have hname : ∀ e : Expr, (e.asName? == some x) = true ↔ ∃ sp, e = .name sp x := by
    intro e
    cases e <;> simp [Expr.asName?]
  rw [List.any_eq_true, bodyExprs_eq]
  constructor
  · rintro ⟨e, he, hx⟩
    obtain ⟨sp, rfl⟩ := (hname e).mp hx
    obtain ⟨s, hs, he⟩ := List.mem_flatMap.mp he
    exact ⟨s, hs, mentions_of_mem_exprs he⟩
  · rintro ⟨s, hs, hx⟩
    obtain ⟨sp, he⟩ := mentions_iff.mp hx
    exact ⟨.name sp x, List.mem_flatMap.mpr ⟨s, hs, he⟩, (hname _).mpr ⟨sp, rfl⟩⟩

instance (x : String) (body : List Stmt) : Decidable (MentionedIn x body) :=
  decidable_of_iff _ (mentionedIn_iff x body)

end Stmt

theorem Signature.readsVarargs_iff (body : List Stmt) :
    readsVarargs body = true ↔ Stmt.MentionedIn varargs body :=
  Stmt.mentionedIn_iff varargs body

/-! ### Behind an element of the other kind -/

section Order

variable {α : Type} {p : α → Bool}

/-- `x` has the property, stands behind an element without it, and is the first to do so. -/
structure LateIn (p : α → Bool) (xs : List α) (x : α) : Prop where
  holds : p x = true
  split : ∃ before after, xs = before ++ x :: after ∧ (∃ a ∈ before, p a = false) ∧
    ∀ a b, [a, b].Sublist before → p a = false → p b = false

theorem lateIn_of_find? {xs : List α} {x : α} (h : (xs.dropWhile p).find? p = some x) :
    LateIn p xs x := by
  induction xs with
  | nil => cases h
  | cons y rest ih =>
    cases hy : p y with
    | true =>
      rw [List.dropWhile_cons_of_pos hy] at h
      obtain ⟨hx, before, after, rfl, ⟨a, ha, hpa⟩, hnone⟩ := ih h
      refine ⟨hx, y :: before, after, rfl, ⟨a, List.mem_cons_of_mem y ha, hpa⟩, ?_⟩
      intro a b hab hpa
      rcases List.sublist_cons_iff.mp hab with hab | ⟨r, hr, -⟩
      · exact hnone a b hab hpa
      · cases hr
        rw [hy] at hpa
        cases hpa
    | false =>
      have hnot : ¬ p y = true := Bool.eq_false_iff.mp hy
      rw [List.dropWhile_cons_of_neg hnot, List.find?_cons_of_neg hnot] at h
      obtain ⟨hx, before, after, rfl, hbefore⟩ := List.find?_eq_some_iff_append.mp h
      have hall : ∀ b ∈ before, p b = false := fun b hb => by simpa using hbefore b hb
      refine ⟨hx, y :: before, after, rfl, ⟨y, List.mem_cons_self, hy⟩, ?_⟩
      intro a b hab _
      rcases List.sublist_cons_iff.mp hab with hab | ⟨r, hr, hab⟩
      · exact hall b (hab.subset (by simp))
      · cases hr
        exact hall b (hab.subset List.mem_cons_self)

theorem LateIn.find?_eq {xs : List α} {x : α} (h : LateIn p xs x) :
    (xs.dropWhile p).find? p = some x := by
  obtain ⟨hx, before, after, rfl, ⟨a, ha, hpa⟩, hnone⟩ := h
  induction before with
  | nil => cases ha
  | cons y before ih =>
    cases hy : p y with
    | true =>
      rw [List.cons_append, List.dropWhile_cons_of_pos hy]
      rcases List.mem_cons.mp ha with rfl | ha
      · rw [hy] at hpa
        cases hpa
      · exact ih (fun a b hab => hnone a b (hab.cons y)) ha
    | false =>
      have hnot : ¬ p y = true := Bool.eq_false_iff.mp hy
      rw [List.cons_append, List.dropWhile_cons_of_neg hnot, List.find?_cons_of_neg hnot,
        List.find?_eq_some_iff_append]
      refine ⟨hx, before, after, rfl, fun b hb => ?_⟩
      rw [hnone y b ((List.singleton_sublist.mpr hb).cons_cons y) hy]
      rfl

/-- One is found just if some element with the property stands behind one without it. -/
theorem isSome_find?_dropWhile_iff (xs : List α) :
    ((xs.dropWhile p).find? p).isSome = true ↔
      ∃ a b, [a, b].Sublist xs ∧ p a = false ∧ p b = true := by
  constructor
  · intro h
    obtain ⟨x, hx⟩ := Option.isSome_iff_exists.mp h
    obtain ⟨hpx, before, after, rfl, ⟨a, ha, hpa⟩, -⟩ := lateIn_of_find? hx
    refine ⟨a, x, ?_, hpa, hpx⟩
    exact (List.singleton_sublist.mpr ha).append (List.singleton_sublist.mpr List.mem_cons_self)
  · rintro ⟨a, b, hab, hpa, hpb⟩
    induction xs with
    | nil => cases hab
    | cons y rest ih =>
      cases hy : p y with
      | true =>
        rw [List.dropWhile_cons_of_pos hy]
        rcases List.sublist_cons_iff.mp hab with hab | ⟨r, hr, -⟩
        · exact ih hab
        · cases hr
          rw [hy] at hpa
          cases hpa
      | false =>
        have hnot : ¬ p y = true := Bool.eq_false_iff.mp hy
        rw [List.dropWhile_cons_of_neg hnot, List.find?_isSome]
        exact ⟨b, hab.subset (by simp), hpb⟩

end Order

/-! ### The signature of a declaration -/

namespace Signature

variable (name : String) (params : List MacroParam) (body : List Stmt)

/-- The parameters of a signature: those of the declaration, and perhaps one more at the end, which
is optional, called `varargs`, and there only if the body reads `varargs`. -/
theorem params_ofDecl : ∃ extra, (ofDecl name params body).params = declaredParams params ++ extra ∧
    (extra = [] ∨ extra = [⟨varargs, false⟩] ∧ readsVarargs body = true) := by
  unfold ofDecl
  dsimp only
  split
  · rename_i h
    rw [Bool.and_eq_true] at h
    exact ⟨[⟨varargs, false⟩], rfl, .inr ⟨rfl, h.1⟩⟩
  · exact ⟨[], (List.append_nil _).symm, .inl rfl⟩

theorem paramCount_ofDecl (h : readsVarargs body = false) :
    (ofDecl name params body).paramCount = params.length := by
  obtain ⟨extra, hparams, rfl | ⟨-, hreads⟩⟩ := params_ofDecl name params body
  · rw [paramCount, hparams, List.append_nil, declaredParams, List.length_map]
  · rw [h] at hreads
    cases hreads

theorem requiredCount_ofDecl :
    (ofDecl name params body).requiredCount = params.countP (·.default.isNone) := by
  obtain ⟨extra, hparams, hextra⟩ := params_ofDecl name params body
  have hnone : extra.countP (·.required) = 0 := by
    rcases hextra with rfl | ⟨rfl, -⟩ <;> rfl
  rw [requiredCount, hparams, List.countP_append, hnone, declaredParams, List.countP_map]
  rfl

/-- A name can be passed if it is declared, and is not `varargs` in a macro that reads it. -/
theorem declares_ofDecl_iff (n : String) :
    (ofDecl name params body).declares n = true ↔
      n ∈ params.map (·.name.name) ∧ ¬ (n = varargs ∧ Stmt.MentionedIn varargs body) := by
  obtain ⟨extra, hparams, hextra⟩ := params_ofDecl name params body
  have haccepts : (ofDecl name params body).acceptsVarargs = readsVarargs body := rfl
  rw [declares, hparams, haccepts, List.any_append, ← readsVarargs_iff]
  have hnone : (extra.any fun p => p.name == n && !(readsVarargs body && p.name == varargs))
      = false := by
    rcases hextra with rfl | ⟨rfl, hreads⟩
    · rfl
    · simp [hreads]
  rw [hnone, Bool.or_false, declaredParams, List.any_map, List.any_eq_true]
  constructor
  · rintro ⟨p, hp, h⟩
    simp only [Function.comp, Bool.and_eq_true, beq_iff_eq] at h
    obtain ⟨rfl, h⟩ := h
    refine ⟨List.mem_map.mpr ⟨p, hp, rfl⟩, ?_⟩
    rintro ⟨hn, hreads⟩
    simp [hn, hreads] at h
  · rintro ⟨hn, h⟩
    obtain ⟨p, hp, rfl⟩ := List.mem_map.mp hn
    refine ⟨p, hp, ?_⟩
    cases hreads : readsVarargs body with
    | false => simp
    | true =>
      have hne : p.name.name ≠ varargs := fun hv => h ⟨hv, hreads⟩
      simp [hne]

/-- An optional parameter at the end does not count. -/
theorem requiredAfterOptional?_ofDecl :
    (ofDecl name params body).requiredAfterOptional?
      = ((params.dropWhile (·.default.isNone)).find? (·.default.isNone)).map
          fun p => ⟨p.name.name, p.default.isNone⟩ := by
  obtain ⟨extra, hparams, hextra⟩ := params_ofDecl name params body
  have hnone : ∀ ps : List ParamSignature,
      ((ps ++ extra).dropWhile (·.required)).find? (·.required)
        = (ps.dropWhile (·.required)).find? (·.required) := by
    rcases hextra with rfl | ⟨rfl, -⟩
    · intro ps
      rw [List.append_nil]
    · intro ps
      induction ps with
      | nil => rfl
      | cons p rest ih =>
        cases hp : p.required with
        | true => simpa [hp] using ih
        | false => simp [hp]
  rw [requiredAfterOptional?, hparams, hnone, declaredParams, List.dropWhile_map, List.find?_map]
  rfl

end Signature

/-! ### Calls -/

namespace Macro

/-- The named arguments, in order, that a call of a macro may not pass: those that are no declared
parameters, and `varargs` if the body of the macro reads it. -/
def refusedNames (params : List MacroParam) (body : List Stmt) (arguments : List (Argument Expr)) :
    List String :=
  (arguments.filterMap (·.name)).filter fun n =>
    n ∉ params.map (·.name.name) ∨ (n = varargs ∧ Stmt.MentionedIn varargs body)

theorem undeclaredArguments_ofDecl (name : String) (params : List MacroParam) (body : List Stmt)
    (arguments : List (Argument Expr)) :
    undeclaredArguments (.ofDecl name params body) arguments
      = refusedNames params body arguments := by
  unfold undeclaredArguments refusedNames
  congr 1
  funext n
  rw [Bool.eq_iff_iff, Bool.not_eq_true', ← Bool.not_eq_true, Signature.declares_ofDecl_iff,
    decide_eq_true_iff, Classical.not_and_iff_not_or_not, Classical.not_not]

theorem isOutOfOrder_iff (arguments : List (Argument Expr)) :
    isOutOfOrder arguments = true ↔
      ∃ a b, [a, b].Sublist arguments ∧ a.isNamed = true ∧ b.isNamed = false := by
  have hfind : isOutOfOrder arguments
      = ((arguments.dropWhile (!·.isNamed)).find? (!·.isNamed)).isSome := by
    rw [isOutOfOrder, List.isSome_find?]
  rw [hfind, isSome_find?_dropWhile_iff]
  simp only [Bool.not_eq_false', Bool.not_eq_true']

theorem tooMany?_eq_some {s : Signature} {name : String} {n : Nat} {place : Location}
    {d : Diagnostic} (h : tooMany? s name n place = some d) :
    d.code = .tooManyArguments ∧ s.paramCount < n := by
  unfold tooMany? at h
  split at h
  · rename_i hn
    rw [Bool.and_eq_true, decide_eq_true_iff] at hn
    cases h
    exact ⟨rfl, hn.2⟩
  · cases h

theorem tooFew?_eq_some {s : Signature} {name : String} {n : Nat} {place : Location}
    {d : Diagnostic} (h : tooFew? s name n place = some d) :
    d.code = .tooFewArguments ∧ n < s.requiredCount := by
  unfold tooFew? at h
  split at h
  · rename_i hn
    cases h
    exact ⟨rfl, hn⟩
  · cases h

theorem badNames?_eq_some {s : Signature} {arguments : List (Argument Expr)} {place : Location}
    {d : Diagnostic} (h : badNames? s arguments place = some d) :
    d.code = .invalidNamedArgument := by
  unfold badNames? at h
  dsimp only at h
  split at h
  · cases h
  · cases h
    rfl

section Call

variable {c : Config} {s : Signature} {name : String} {arguments : List (Argument Expr)}
  {place : Location} {d : Diagnostic}

theorem mem_validateCall (h : d ∈ validateCall c s name arguments place) :
    tooMany? s name arguments.length place = some d ∨
      tooFew? s name arguments.length place = some d ∨ badNames? s arguments place = some d := by
  unfold validateCall at h
  rcases List.mem_append.mp h with h | h
  · split at h
    · rcases List.mem_append.mp h with h | h
      · exact .inl (Option.mem_toList.mp h)
      · exact .inr (.inl (Option.mem_toList.mp h))
    · cases h
  · split at h
    · exact .inr (.inr (Option.mem_toList.mp h))
    · cases h

/-- Too many arguments are more than all parameters, and too few are fewer than some of them. -/
theorem validateCall_not_both :
    ¬ ((∃ d ∈ validateCall c s name arguments place, d.code = .tooManyArguments) ∧
        ∃ d ∈ validateCall c s name arguments place, d.code = .tooFewArguments) := by
  rintro ⟨⟨d, hd, hmany⟩, e, he, hfew⟩
  have hle : s.requiredCount ≤ s.paramCount := List.countP_le_length
  have habove : s.paramCount < arguments.length := by
    rcases mem_validateCall hd with h | h | h
    · exact (tooMany?_eq_some h).2
    · rw [(tooFew?_eq_some h).1] at hmany
      cases hmany
    · rw [badNames?_eq_some h] at hmany
      cases hmany
  have hbelow : arguments.length < s.requiredCount := by
    rcases mem_validateCall he with h | h | h
    · rw [(tooMany?_eq_some h).1] at hfew
      cases hfew
    · exact (tooFew?_eq_some h).2
    · rw [badNames?_eq_some h] at hfew
      cases hfew
  omega

end Call

section Declared

variable (name callName : String) (params : List MacroParam) (body : List Stmt)
  (arguments : List (Argument Expr)) (place : Location)

theorem tooMany?_ofDecl (n : Nat) :
    (tooMany? (.ofDecl name params body) callName n place).toList =
      if ¬ Stmt.MentionedIn varargs body ∧ params.length < n then
        [.error .tooManyArguments ("Too many arguments (" ++ toString n ++ ") for macro '" ++
          callName ++ "' " ++ place.suffix) place]
      else [] := by
  have haccepts : (Signature.ofDecl name params body).acceptsVarargs
      = Signature.readsVarargs body := rfl
  have hreads := Signature.readsVarargs_iff body
  rw [tooMany?, haccepts]
  cases hr : Signature.readsVarargs body with
  | true =>
    have hmentioned : Stmt.MentionedIn varargs body := hreads.mp hr
    simp [hmentioned]
  | false =>
    have hmentioned : ¬ Stmt.MentionedIn varargs body := by
      rw [← hreads, hr]
      exact Bool.false_ne_true
    rw [Signature.paramCount_ofDecl name params body hr]
    by_cases hn : params.length < n <;> simp [hmentioned, hn]

theorem tooFew?_ofDecl (n : Nat) :
    (tooFew? (.ofDecl name params body) callName n place).toList =
      if n < params.countP (·.default.isNone) then
        [.error .tooFewArguments ("Too few arguments (" ++ toString n ++ ") for macro '" ++
          callName ++ "' " ++ place.suffix) place]
      else [] := by
  rw [tooFew?, Signature.requiredCount_ofDecl]
  split <;> rfl

theorem badNames?_ofDecl :
    (badNames? (.ofDecl name params body) arguments place).toList =
      if refusedNames params body arguments ≠ [] then
        [.error .invalidNamedArgument ("Invalid named macro argument(s) " ++
          ", ".intercalate (refusedNames params body arguments) ++ " " ++ place.suffix) place]
      else [] := by
  rw [badNames?, undeclaredArguments_ofDecl]
  cases refusedNames params body arguments <;> simp

theorem outOfOrder?_eq_some_iff (d : Diagnostic) :
    outOfOrder? arguments place = some d ↔
      (∃ a b, [a, b].Sublist arguments ∧ a.isNamed = true ∧ b.isNamed = false) ∧
        d = .error .positionalAfterNamed
          ("Positional macro argument after named " ++ place.suffix) place := by
  rw [← isOutOfOrder_iff, outOfOrder?]
  split
  · rename_i h
    rw [Option.some.injEq, eq_comm]
    exact ⟨fun hd => ⟨h, hd⟩, And.right⟩
  · rename_i h
    exact ⟨nofun, fun hd => absurd hd.1 h⟩

theorem badDeclaration?_ofDecl_eq_some_iff (d : Diagnostic) :
    badDeclaration? (.ofDecl name params body) place = some d ↔
      ∃ q, LateIn (·.default.isNone) params q ∧
        d = .warning .requiredAfterOptional ("Macro '" ++ name ++ "' argument '" ++ q.name.name ++
          "' is required, but previous isn't " ++ place.suffix) place := by
  have hname : (Signature.ofDecl name params body).name = name := rfl
  rw [badDeclaration?, Signature.requiredAfterOptional?_ofDecl, hname, Option.map_map,
    Option.map_eq_some_iff]
  constructor
  · rintro ⟨q, hq, rfl⟩
    exact ⟨q, lateIn_of_find? hq, rfl⟩
  · rintro ⟨q, hq, rfl⟩
    exact ⟨q, hq.find?_eq, rfl⟩

theorem isSome_badDeclaration?_ofDecl_iff :
    (badDeclaration? (.ofDecl name params body) place).isSome = true ↔
      ∃ p q, [p, q].Sublist params ∧ p.default.isNone = false ∧ q.default.isNone = true := by
  rw [badDeclaration?, Signature.requiredAfterOptional?_ofDecl, Option.isSome_map,
    Option.isSome_map, isSome_find?_dropWhile_iff]

end Declared

/-- **Checks of calls and declarations say what the declaration says.**  With every inspection
enabled, a call is reported, in this order and for nothing else,

* if the body of the macro does not mention `varargs` at any depth, and there are more arguments
  than declared parameters;
* if there are fewer arguments than declared parameters without a default;
* if it passes names that it may not pass; these are listed in the order of the call.

The first two never come together.  The order of arguments is reported just if a positional one
stands somewhere behind a named one.  The declaration is reported just if a parameter without a
default stands somewhere behind one with a default, and the first such parameter is named. -/
theorem call_agrees_with_declaration (c : Config) (name callName : String)
    (params : List MacroParam) (body : List Stmt) (arguments : List (Argument Expr))
    (place : Location) :
    let s := Signature.ofDecl name params body
    let found := validateCall c.enableAll s callName arguments place
    let refused := refusedNames params body arguments
    found =
        (if ¬ Stmt.MentionedIn varargs body ∧ params.length < arguments.length then
          [.error .tooManyArguments ("Too many arguments (" ++ toString arguments.length ++
            ") for macro '" ++ callName ++ "' " ++ place.suffix) place] else []) ++
        (if arguments.length < params.countP (·.default.isNone) then
          [.error .tooFewArguments ("Too few arguments (" ++ toString arguments.length ++
            ") for macro '" ++ callName ++ "' " ++ place.suffix) place] else []) ++
        (if refused ≠ [] then
          [.error .invalidNamedArgument ("Invalid named macro argument(s) " ++
            ", ".intercalate refused ++ " " ++ place.suffix) place] else []) ∧
      ¬ ((∃ d ∈ found, d.code = .tooManyArguments) ∧ ∃ d ∈ found, d.code = .tooFewArguments) ∧
      (∀ d, outOfOrder? arguments place = some d ↔
        (∃ a b, [a, b].Sublist arguments ∧ a.isNamed = true ∧ b.isNamed = false) ∧
          d = .error .positionalAfterNamed
            ("Positional macro argument after named " ++ place.suffix) place) ∧
      ((badDeclaration? s place).isSome = true ↔
        ∃ p q, [p, q].Sublist params ∧ p.default.isNone = false ∧ q.default.isNone = true) ∧
      (∀ d, badDeclaration? s place = some d ↔
        ∃ q, LateIn (·.default.isNone) params q ∧
          d = .warning .requiredAfterOptional ("Macro '" ++ name ++ "' argument '" ++ q.name.name ++
            "' is required, but previous isn't " ++ place.suffix) place) := by
  intro s found refused
  refine ⟨?_, ?_, outOfOrder?_eq_some_iff arguments place,
    isSome_badDeclaration?_ofDecl_iff name params body place,
    badDeclaration?_ofDecl_eq_some_iff name params body place⟩
  · show (tooMany? s callName arguments.length place).toList ++
        (tooFew? s callName arguments.length place).toList ++
        (badNames? s arguments place).toList = _
    rw [tooMany?_ofDecl, tooFew?_ofDecl, badNames?_ofDecl]
  · exact validateCall_not_both

end Macro

end TemplateContracts
