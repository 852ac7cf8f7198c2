import TemplateContracts.Import.Loader
import TemplateContracts.Proofs.ExprForms

/-!
# Templates are read back from their text

The statements of a template are decoded from their forms as its expressions are, and the text of
its form is read as that form.  So reading undoes writing, and a loader that is given the text of a
template has the template.

* `Stmt.hasForm` : **every statement is decoded from its form**;
* `Template.Representable` : all of a template is in its text;
* `Template.toText_readsBack` : **a template is read back from its text**.
-/

namespace TemplateContracts

open Json (Origin IsForm)

/-! ### Statements -/

theorem Expr.toJson_ne_null (e : Expr) : e.toJson ≠ .null := by
  cases e <;> nofun

theorem MacroParam.isForm_of {o : Origin} {name : Ident} {default : Option Expr} {jn jd : Json}
    (hn : IsForm Ident.ofJson? name jn)
    (hd : IsForm (fun j => (Json.Field.given j).optional (Expr.ofJson? o)) default jd) :
    IsForm (MacroParam.ofJson? o) ⟨name, default⟩ (.object [("name", jn), ("default", jd)]) := by
  refine ⟨.object (by simp [hn.readable, hd.readable]), ?_⟩
  refine Json.bind_record rfl ?_
  refine Json.bind_field rfl hn.decoded ?_
  exact Json.bind_field rfl hd.decoded rfl

theorem MacroParam.isForm {p : MacroParam} (h : ∀ e ∈ p.default, e.HasForm) (o : Origin) :
    IsForm (MacroParam.ofJson? o) p p.toJson :=
  MacroParam.isForm_of p.name.isForm
    (Json.isForm_option (fun e he => (h e he).ofJson? o) Expr.toJson_ne_null)

theorem Import.isForm_of {o : Origin} {template : Expr} {kind : ImportKind} {span : Span}
    {jt jk js : Json} (ht : IsForm (Expr.ofJson? o) template jt)
    (hk : IsForm ImportKind.ofJson? kind jk) (hs : IsForm Span.ofJson? span js) :
    IsForm (Import.ofJson? o) ⟨template, kind, span⟩
      (.object [("template", jt), ("kind", jk), ("span", js)]) := by
  refine ⟨.object (by simp [ht.readable, hk.readable, hs.readable]), ?_⟩
  refine Json.bind_record rfl ?_
  refine Json.bind_field rfl ht.decoded ?_
  refine Json.bind_field rfl hk.decoded ?_
  exact Json.bind_field rfl hs.decoded rfl

theorem Import.isForm {i : Import} (h : i.template.HasForm) (o : Origin) :
    IsForm (Import.ofJson? o) i i.toJson :=
  Import.isForm_of (h.ofJson? o) i.kind.isForm i.span.isForm

namespace Stmt

variable {o : Origin} {read : Json → Option Stmt}

theorem isForm_branch {condition : Expr} {body : List Stmt} {jc jb : Json}
    (hc : IsForm (Expr.ofJson? o) condition jc) (hb : IsForm (Json.list? read) body jb) :
    IsForm (branch? o read) ⟨condition, body⟩ (.object [("condition", jc), ("body", jb)]) := by
  refine ⟨.object (by simp [hc.readable, hb.readable]), ?_⟩
  refine Json.bind_record rfl ?_
  refine Json.bind_field rfl hc.decoded ?_
  exact Json.bind_field rfl hb.decoded rfl

theorem isForm_content {bound : Nat} {kind : String} {s : Stmt} {jc : Json}
    (h : IsForm (content? o (readWithin o bound) kind) s jc) :
    IsForm (readWithin o (bound + 1)) s (.tagged kind jc) := by
  refine ⟨Json.readable_tagged h.readable, ?_⟩
  exact Json.bind_value rfl h.decoded

theorem isForm_text {t : String} {span : Span} {jt js : Json} (ht : IsForm Json.string? t jt)
    (hs : IsForm Span.ofJson? span js) :
    IsForm (content? o read "Text") (.text t span) (.object [("text", jt), ("span", js)]) := by
  refine ⟨.object (by simp [ht.readable, hs.readable]), ?_⟩
  refine Json.bind_fields rfl ?_
  refine Json.bind_field rfl ht.decoded ?_
  exact Json.bind_field rfl hs.decoded rfl

theorem isForm_print {e : Expr} {span : Span} {je js : Json}
    (he : IsForm (Expr.ofJson? o) e je) (hs : IsForm Span.ofJson? span js) :
    IsForm (content? o read "Print") (.print e span) (.object [("expr", je), ("span", js)]) := by
  refine ⟨.object (by simp [he.readable, hs.readable]), ?_⟩
  refine Json.bind_fields rfl ?_
  refine Json.bind_field rfl he.decoded ?_
  exact Json.bind_field rfl hs.decoded rfl

theorem isForm_types {a : Contract} {j : Json} (h : IsForm Contract.ofJson? a j) :
    IsForm (content? o read "Types") (.types a) j :=
  ⟨h.readable, congrArg (Option.map Stmt.types) h.decoded⟩

theorem isForm_guarded {a : Contract} {guards : List Guard} {ja jg : Json}
    (ha : IsForm Contract.ofJson? a ja) (hg : IsForm (Json.list? (Guard.ofJson? o)) guards jg) :
    IsForm (content? o read "Guarded") (.guarded a guards)
      (.object [("types", ja), ("guards", jg)]) := by
  refine ⟨.object (by simp [ha.readable, hg.readable]), ?_⟩
  refine Json.bind_record rfl ?_
  refine Json.bind_field rfl ha.decoded ?_
  exact Json.bind_field rfl hg.decoded rfl

theorem isForm_assign {names : List Ident} {values : List Expr} {span : Span} {jn jv js : Json}
    (hn : IsForm (Json.list? Ident.ofJson?) names jn)
    (hv : IsForm (Json.list? (Expr.ofJson? o)) values jv) (hs : IsForm Span.ofJson? span js) :
    IsForm (content? o read "Set") (.assign names values span)
      (.object [("names", jn), ("values", jv), ("span", js)]) := by
  refine ⟨.object (by simp [hn.readable, hv.readable, hs.readable]), ?_⟩
  refine Json.bind_record rfl ?_
  refine Json.bind_field rfl hn.decoded ?_
  refine Json.bind_field rfl hv.decoded ?_
  exact Json.bind_field rfl hs.decoded rfl

theorem isForm_loop {key : Option Ident} {value : Ident} {source : Expr}
    {body orElse : List Stmt} {span : Span} {jk jv jf jb je js : Json}
    (hk : IsForm (fun j => (Json.Field.given j).optional Ident.ofJson?) key jk)
    (hv : IsForm Ident.ofJson? value jv) (hf : IsForm (Expr.ofJson? o) source jf)
    (hb : IsForm (Json.list? read) body jb) (he : IsForm (Json.list? read) orElse je)
    (hs : IsForm Span.ofJson? span js) :
    IsForm (content? o read "For") (.loop key value source body orElse span)
      (.object [("key_target", jk), ("value_target", jv), ("source", jf), ("body", jb),
        ("else_body", je), ("span", js)]) := by
  refine ⟨.object (by simp [hk.readable, hv.readable, hf.readable, hb.readable, he.readable,
    hs.readable]), ?_⟩
  refine Json.bind_record rfl ?_
  refine Json.bind_field rfl hk.decoded ?_
  refine Json.bind_field rfl hv.decoded ?_
  refine Json.bind_field rfl hf.decoded ?_
  refine Json.bind_field rfl hb.decoded ?_
  refine Json.bind_field rfl he.decoded ?_
  exact Json.bind_field rfl hs.decoded rfl

theorem isForm_if {branches : List (Branch Stmt)} {orElse : List Stmt} {span : Span}
    {jb je js : Json} (hb : IsForm (Json.list? (branch? o read)) branches jb)
    (he : IsForm (Json.list? read) orElse je) (hs : IsForm Span.ofJson? span js) :
    IsForm (content? o read "If") (.branch branches orElse span)
      (.object [("branches", jb), ("else_body", je), ("span", js)]) := by
  refine ⟨.object (by simp [hb.readable, he.readable, hs.readable]), ?_⟩
  refine Json.bind_record rfl ?_
  refine Json.bind_field rfl hb.decoded ?_
  refine Json.bind_field rfl he.decoded ?_
  exact Json.bind_field rfl hs.decoded rfl

theorem isForm_macroDecl {name : Ident} {params : List MacroParam} {body : List Stmt}
    {span : Span} {jn jp jb js : Json} (hn : IsForm Ident.ofJson? name jn)
    (hp : IsForm (Json.list? (MacroParam.ofJson? o)) params jp)
    (hb : IsForm (Json.list? read) body jb) (hs : IsForm Span.ofJson? span js) :
    IsForm (content? o read "Macro") (.macroDecl name params body span)
      (.object [("name", jn), ("params", jp), ("body", jb), ("span", js)]) := by
  refine ⟨.object (by simp [hn.readable, hp.readable, hb.readable, hs.readable]), ?_⟩
  refine Json.bind_record rfl ?_
  refine Json.bind_field rfl hn.decoded ?_
  refine Json.bind_field rfl hp.decoded ?_
  refine Json.bind_field rfl hb.decoded ?_
  exact Json.bind_field rfl hs.decoded rfl

theorem isForm_imports {i : Import} {j : Json} (h : IsForm (Import.ofJson? o) i j) :
    IsForm (content? o read "Import") (.imports i) j :=
  ⟨h.readable, congrArg (Option.map Stmt.imports) h.decoded⟩

/-- Wherever it is read from, a statement is read from its form. -/
def HasForm (s : Stmt) : Prop :=
  ∀ (o : Origin) (bound : Nat), s.toJson.depth < bound → IsForm (readWithin o bound) s s.toJson

theorem HasForm.ofJson? {s : Stmt} (h : s.HasForm) (o : Origin) :
    IsForm (Stmt.ofJson? o) s s.toJson := by
  have hform := h o (s.toJson.depth + 1) (Nat.lt_succ_self _)
  exact ⟨hform.readable, hform.decoded⟩

theorem hasForm_of_content {s : Stmt} {kind : String} {jc : Json} (hs : s.toJson = .tagged kind jc)
    (h : ∀ (o : Origin) (bound : Nat), jc.depth < bound →
      IsForm (content? o (readWithin o bound) kind) s jc) : s.HasForm := by
  intro o bound hd
  obtain ⟨bound, rfl⟩ : ∃ k, bound = k + 1 := ⟨bound - 1, by omega⟩
  have hcontent : jc.depth < bound := by
    simp only [hs, Json.tagged, Json.depth, Json.membersDepth] at hd
    omega
  rw [hs]
  exact isForm_content (h o bound hcontent)

theorem bodyJson_eq_map (body : List Stmt) : bodyJson body = body.map toJson := by
  induction body with
  | nil => rfl
  | cons s rest ih => rw [bodyJson, ih, List.map_cons]

theorem branchesJson_eq_map (branches : List (Branch Stmt)) :
    branchesJson branches = branches.map fun b =>
      .object [("condition", b.condition.toJson), ("body", .array (bodyJson b.body))] := by
  induction branches with
  | nil => rfl
  | cons b rest ih => rw [branchesJson, ih, List.map_cons]

theorem isForm_bodyJson {body : List Stmt} (h : ∀ s ∈ body, s.HasForm) {bound : Nat}
    (hd : (Json.array (bodyJson body)).depth < bound) :
    IsForm (Json.list? (readWithin o bound)) body (.array (bodyJson body)) := by
  rw [bodyJson_eq_map] at hd ⊢
  exact Json.isForm_list fun s hs =>
    h s hs o bound (Json.depth_lt_of_item hd (List.mem_map_of_mem hs))

theorem isForm_branchesJson {branches : List (Branch Stmt)}
    (h : ∀ b ∈ branches, b.condition.HasForm ∧ ∀ s ∈ b.body, s.HasForm) {bound : Nat}
    (hd : (Json.array (branchesJson branches)).depth < bound) :
    IsForm (Json.list? (branch? o (readWithin o bound))) branches
      (.array (branchesJson branches)) := by
  rw [branchesJson_eq_map] at hd ⊢
  refine Json.isForm_list fun b hb => ?_
  have hbranch := Json.depth_lt_of_item hd (List.mem_map_of_mem hb)
  exact isForm_branch ((h b hb).1.ofJson? o)
    (isForm_bodyJson (h b hb).2 (Json.depth_lt_of_member hbranch "body" (by simp)))

/-- Every statement has its form. -/
theorem hasForm (s : Stmt) (h : Literals s.exprs) : s.HasForm := by
  induction s with
  | text t sp =>
    exact hasForm_of_content rfl fun o bound _ => isForm_text (Json.isForm_string t) sp.isForm
  | print e sp =>
    have he := e.hasForm h
    exact hasForm_of_content rfl fun o bound _ => isForm_print (he.ofJson? o) sp.isForm
  | types a => exact hasForm_of_content rfl fun o bound _ => isForm_types a.isForm
  | guarded a guards =>
    exact hasForm_of_content rfl fun o bound _ =>
      isForm_guarded a.isForm (Json.isForm_list fun g _ => g.isForm o)
  | assign names values sp =>
    have hvalues : ∀ e ∈ values, e.HasForm := fun e he => e.hasForm (h.flatMap e he)
    exact hasForm_of_content rfl fun o bound _ =>
      isForm_assign (Json.isForm_list fun i _ => i.isForm)
        (Json.isForm_list fun e he => (hvalues e he).ofJson? o) sp.isForm
  | loop key value source body orElse sp ihb ihe =>
    have hsource := source.hasForm h.left.left
    refine hasForm_of_content rfl fun o bound hd => ?_
    exact isForm_loop (Json.isForm_option (fun i _ => i.isForm) nofun) value.isForm
      (hsource.ofJson? o)
      (isForm_bodyJson (fun t ht => ihb t ht (h.left.right.body t ht))
        (Json.depth_lt_of_member hd "body" (by simp)))
      (isForm_bodyJson (fun t ht => ihe t ht (h.right.body t ht))
        (Json.depth_lt_of_member hd "else_body" (by simp))) sp.isForm
  | branch branches orElse sp ihb ihe =>
    have hbranches := h.left.branches
    refine hasForm_of_content rfl fun o bound hd => ?_
    refine isForm_if (isForm_branchesJson (fun b hb => ⟨?_, ?_⟩) ?_) ?_ sp.isForm
    · exact b.condition.hasForm (hbranches b hb).1
    · exact fun t ht => ihb b hb t ht ((hbranches b hb).2 t ht)
    · exact Json.depth_lt_of_member hd "branches" (by simp)
    · exact isForm_bodyJson (fun t ht => ihe t ht (h.right.body t ht))
        (Json.depth_lt_of_member hd "else_body" (by simp))
  | macroDecl name params body sp ih =>
    have hdefault : ∀ p ∈ params, ∀ e ∈ p.default, e.HasForm := by
      intro p hp e he
      exact e.hasForm (h.left.flatMap e (List.mem_filterMap.mpr ⟨p, hp, he⟩))
    refine hasForm_of_content rfl fun o bound hd => ?_
    exact isForm_macroDecl name.isForm
      (Json.isForm_list fun p hp => MacroParam.isForm (hdefault p hp) o)
      (isForm_bodyJson (fun t ht => ih t ht (h.right.body t ht))
        (Json.depth_lt_of_member hd "body" (by simp))) sp.isForm
  | imports i =>
    have htemplate := i.template.hasForm h
    exact hasForm_of_content rfl fun o bound _ => isForm_imports (Import.isForm htemplate o)

end Stmt

/-! ### Templates -/

namespace Template

theorem isForm_of {o : Origin} {name : String} {body : List Stmt} {span : Span} {jn jb js : Json}
    (hn : IsForm Json.string? name jn) (hb : IsForm (Json.list? (Stmt.ofJson? o)) body jb)
    (hs : IsForm Span.ofJson? span js) :
    IsForm (Template.ofJson? o) ⟨name, body, span⟩
      (.object [("name", jn), ("body", jb), ("span", js)]) := by
  refine ⟨.object (by simp [hn.readable, hb.readable, hs.readable]), ?_⟩
  refine Json.bind_record rfl ?_
  refine Json.bind_field rfl hn.decoded ?_
  refine Json.bind_field rfl hb.decoded ?_
  exact Json.bind_field rfl hs.decoded rfl

theorem isForm {t : Template} (h : Literals (Stmt.bodyExprs t.body)) (o : Origin) :
    IsForm (Template.ofJson? o) t t.toJson := by
  have hbody : IsForm (Json.list? (Stmt.ofJson? o)) t.body (.array (Stmt.bodyJson t.body)) := by
    rw [Stmt.bodyJson_eq_map]
    exact Json.isForm_list fun s hs => (s.hasForm (h.body s hs)).ofJson? o
  exact isForm_of (Json.isForm_string t.name) hbody t.span.isForm

/-- A template all of which is in its text.  The text of a number that is not finite is `null`; the
reader rounds the digits of a finite one twice, so that it reads back is asked of each literal; and
a text that nests too deeply is refused. -/
structure Representable (t : Template) : Prop where
  finite : ∀ s x, Expr.number s x ∈ Stmt.bodyExprs t.body → x.isFinite = true
  readsBack : ∀ s x, Expr.number s x ∈ Stmt.bodyExprs t.body → x.ReadsBack
  depth_le : t.toJson.depth ≤ Json.maxDepth

theorem Representable.ofText? {t : Template} (h : t.Representable) :
    Template.ofText? t.toText = some t := by
  have hform := isForm (fun s x hx => ⟨h.finite s x hx, h.readsBack s x hx⟩) .text
  rw [Template.ofText?, toText, Json.parse?_compact hform.readable h.depth_le, Option.bind_some]
  exact hform.decoded

end Template

/-- Of the sources with one name, the loader reads the last. -/
theorem Loader.load_ofSources_last (reason : String) (sources : List (String × String))
    (name text : String) :
    (ofSources reason (sources ++ [(name, text)])).load name = readSource reason name text := by
  simp only [ofSources, List.foldl_append, List.foldl_cons, List.foldl_nil, Assoc.get?_set_self]

namespace Template

/-- **A template is read back from its text.**  Hence the loader that has the text under the
template's name gives the template, whatever it had under that name before, and no two templates
have the same text. -/
theorem toText_readsBack {t : Template} (h : t.Representable) :
    Template.ofText? t.toText = some t ∧
      (∀ (reason : String) (sources : List (String × String)),
        (Loader.ofSources reason (sources ++ [(t.name, t.toText)])).load t.name = .ok t) ∧
      ∀ u : Template, u.Representable → u.toText = t.toText → u = t := by
  refine ⟨h.ofText?, ?_, ?_⟩
  · intro reason sources
    rw [Loader.load_ofSources_last, Loader.readSource, h.ofText?]
  · intro u hu htext
    have hread := hu.ofText?
    rw [htext, h.ofText?] at hread
    exact (Option.some.inj hread).symm

/-- A price list: guards, a macro with a default, a condition inside a loop, and text that has to be
escaped. -/
def priceList : Template where
  name := "prices \"2\".twig"
  body :=
    [.guarded ⟨[⟨⟨"rows", .ofLine 1⟩, "iterable<number>", true⟩], .ofLine 1⟩
      [⟨"rows", .notNull⟩, ⟨"rows", .hasType "iterable<number>"⟩],
     .macroDecl ⟨"price", .ofLine 2⟩
      [⟨⟨"amount", .ofLine 2⟩, some (.number (.ofLine 2) ⟨0x3FF8000000000000⟩)⟩,
       ⟨⟨"unit", .ofLine 2⟩, none⟩]
      [.print (.name (.ofLine 3) "amount") (.ofLine 3), .text "\t€\n" (.ofLine 3)] (.ofLine 2),
     .loop none ⟨"row", .ofLine 5⟩ (.name (.ofLine 5) "rows")
      [.branch
        [⟨.binary (.ofLine 6) "<" (.unary (.ofLine 6) "-" (.number (.ofLine 6) ⟨0⟩))
            (.name (.ofLine 6) "row"),
          [.print (.macroCall (.ofLine 7) .own "price" [⟨some "amount", .name (.ofLine 7) "row"⟩])
            (.ofLine 7)]⟩]
        [] (.ofLine 6)]
      [.text "\\none\u0001" (.ofLine 9)] (.ofLine 5)]
  span := .ofLine 1

theorem toText_readsBack_priceList :
    priceList.Representable ∧ Template.ofText? priceList.toText = some priceList := by
  have hnumbers : ∀ s x, Expr.number s x ∈ Stmt.bodyExprs priceList.body →
      x = ⟨0x3FF8000000000000⟩ ∨ x = ⟨0⟩ := by
    intro s x hx
    simp [priceList, Stmt.bodyExprs, Stmt.exprs, Stmt.branchesExprs, MacroParam.defaults,
      Expr.subexprs, Expr.argumentsExprs] at hx
    grind
  have h : priceList.Representable := by
    refine ⟨?_, ?_, by decide⟩
    · intro s x hx
      rcases hnumbers s x hx with rfl | rfl <;> decide
    · intro s x hx
      rcases hnumbers s x hx with rfl | rfl <;> decide +kernel
  exact ⟨h, (toText_readsBack h).1⟩

end Template

end TemplateContracts
