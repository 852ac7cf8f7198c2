import TemplateContracts.Proofs.Induction
import TemplateContracts.Proofs.JsonText
import TemplateContracts.Template.Decode

/-!
# Expressions are decoded from their forms

A value is written as a *form*, a JSON value, and decoded from it.  Two things are shown of the form
of every part of an expression: its text can be read, and it is decoded to that part.  A record or a
variant is decoded from the forms of its fields, whatever these are; so each constructor has one
lemma, over any forms of its fields, and the tree is put together by induction.

* `Json.IsForm` : a form that can be read and is decoded to a value;
* `Literals` : the number literals among expressions are finite, and their texts read back;
* `Expr.HasForm` : the reader decodes the form of an expression, given a bound above its depth;
* `Expr.hasForm` : **every expression is decoded from its form**.
-/

namespace TemplateContracts

open Json (Origin)

/-! ### Forms of plain values, lists and options -/

namespace Json

/-- A form of a value: its text can be read, and it is decoded to the value. -/
structure IsForm {α : Type} (decode : Json → Option α) (a : α) (j : Json) : Prop where
  readable : j.Readable
  decoded : decode j = some a

theorem readable_tagged {name : String} {j : Json} (h : j.Readable) : (tagged name j).Readable :=
  .object (List.forall_mem_singleton.mpr h)

theorem isForm_string (s : String) : IsForm string? s (.string s) := ⟨.string s, rfl⟩

theorem isForm_bool (b : Bool) : IsForm bool? b (.bool b) := ⟨.bool b, rfl⟩

theorem isForm_double {x : Binary64} (hx : x.isFinite = true) (h : x.ReadsBack) :
    IsForm double? x (.double x) := by
  rw [double, if_pos hx]
  exact ⟨.float hx h, rfl⟩

/-- A list is read item by item. -/
theorem isForm_list {α : Type} {decode : Json → Option α} {encode : α → Json} {items : List α}
    (h : ∀ a ∈ items, IsForm decode a (encode a)) :
    IsForm (list? decode) items (.array (items.map encode)) := by
  refine ⟨.array ?_, ?_⟩
  · intro j hj
    obtain ⟨a, ha, rfl⟩ := List.mem_map.mp hj
    exact (h a ha).readable
  · show (items.map encode).mapM decode = some items
    induction items with
    | nil => rfl
    | cons a items ih =>
      rw [List.forall_mem_cons] at h
      rw [List.map_cons, List.mapM_cons, h.1.decoded, ih h.2]
      rfl

theorem optional_given {α : Type} {decode : Json → Option α} {a : α} {j : Json}
    (h : decode j = some a) (hj : j ≠ .null) : (Field.given j).optional decode = some (some a) := by
  cases j with
  | null => exact absurd rfl hj
  | _ => exact congrArg (Option.map some) h

/-- A field that may be `null`. -/
theorem isForm_option {α : Type} {decode : Json → Option α} {encode : α → Json} {o : Option α}
    (h : ∀ a ∈ o, IsForm decode a (encode a)) (hnull : ∀ a, encode a ≠ .null) :
    IsForm (fun j => (Field.given j).optional decode) o (option encode o) := by
  cases o with
  | none => exact ⟨.null, rfl⟩
  | some a => exact ⟨(h a rfl).readable, optional_given (h a rfl).decoded (hnull a)⟩

/-! The steps of a decoder over the fields of an object. -/

/-- The fields of an object. -/
def fieldOf (members : List (String × Json)) (name : String) : Field :=
  match member? name members with
  | some j => .given j
  | none => .missing

section Steps

variable {α β : Type} {b : β} {names : List String} {members : List (String × Json)}

theorem bind_value {x : Option α} {f : α → Option β} {a : α} (ha : x = some a) (h : f a = some b) :
    (x >>= f) = some b := by
  rw [ha]
  exact h

theorem bind_record {f : (String → Field) → Option β}
    (hnames : names.any (repeats · members) = false) (h : f (fieldOf members) = some b) :
    ((object members).record? names >>= f) = some b := by
  rw [record?, hnames]
  exact h

theorem bind_fields {o : Origin} {f : (String → Field) → Option β}
    (hnames : names.any (repeats · members) = false) (h : f (fieldOf members) = some b) :
    ((object members).fields? o names >>= f) = some b := by
  cases o <;> exact bind_record hnames h

/-- A field is used as the value that stands for it. -/
theorem bind_field {use : Field → Option α} {f : α → Option β} {name : String} {a : α} {j : Json}
    (hj : member? name members = some j) (ha : use (.given j) = some a) (h : f a = some b) :
    (use (fieldOf members name) >>= f) = some b := by
  rw [fieldOf, hj]
  exact bind_value ha h

end Steps

end Json

/-! ### Forms of records

Each record is decoded from the forms of its fields, whatever these are. -/

open Json (IsForm)

theorem Span.isForm_number (n : UInt32) : IsForm Span.number? n (.nat n.toNat) := by
  have hn : n.toNat < 4294967296 := n.toNat_lt
  refine ⟨.int ?_ ?_, ?_⟩
  · have hmin : Int64.minValue.toInt = -9223372036854775808 := rfl
    omega
  · have hsize : (UInt64.size : Int) = 18446744073709551616 := rfl
    omega
  · have hrange : 0 ≤ (n.toNat : Int) ∧ (n.toNat : Int) < (UInt32.size : Nat) :=
      ⟨Int.natCast_nonneg _, Int.ofNat_lt.mpr hn⟩
    rw [Span.number?, Json.nat, Json.natBelow?, if_pos hrange, Int.toNat_natCast, Option.map_some,
      UInt32.ofNat_toNat]

theorem Span.isForm_of {line column : UInt32} {jl jc : Json} (hl : IsForm Span.number? line jl)
    (hc : IsForm Span.number? column jc) :
    IsForm Span.ofJson? ⟨line, column⟩ (.object [("line", jl), ("column", jc)]) := by
  refine ⟨.object (by simp [hl.readable, hc.readable]), ?_⟩
  refine Json.bind_record rfl ?_
  refine Json.bind_field rfl hl.decoded ?_
  exact Json.bind_field rfl hc.decoded rfl

theorem Span.isForm (s : Span) : IsForm Span.ofJson? s s.toJson :=
  Span.isForm_of (Span.isForm_number s.line) (Span.isForm_number s.column)

theorem Ident.isForm_of {name : String} {span : Span} {jn js : Json}
    (hn : IsForm Json.string? name jn) (hs : IsForm Span.ofJson? span js) :
    IsForm Ident.ofJson? ⟨name, span⟩ (.object [("name", jn), ("span", js)]) := by
  refine ⟨.object (by simp [hn.readable, hs.readable]), ?_⟩
  refine Json.bind_record rfl ?_
  refine Json.bind_field rfl hn.decoded ?_
  exact Json.bind_field rfl hs.decoded rfl

theorem Ident.isForm (i : Ident) : IsForm Ident.ofJson? i i.toJson :=
  Ident.isForm_of (Json.isForm_string i.name) i.span.isForm

theorem MacroTarget.isForm (t : MacroTarget) : IsForm MacroTarget.ofJson? t t.toJson := by
  cases t with
  | own => exact ⟨.string _, rfl⟩
  | inNamespace localName => exact ⟨Json.readable_tagged (.string localName), rfl⟩
  | imported => exact ⟨.string _, rfl⟩

theorem AccessKind.isForm (k : AccessKind) :
    IsForm (Json.oneOf? AccessKind.text AccessKind.all) k (.string k.text) := by
  refine ⟨.string _, ?_⟩
  cases k <;> rfl

theorem TypeDecl.isForm_of {name : Ident} {typeText : String} {optional : Bool} {jn jt jo : Json}
    (hn : IsForm Ident.ofJson? name jn) (ht : IsForm Json.string? typeText jt)
    (ho : IsForm Json.bool? optional jo) :
    IsForm TypeDecl.ofJson? ⟨name, typeText, optional⟩
      (.object [("name", jn), ("type_text", jt), ("optional", jo)]) := by
  refine ⟨.object (by simp [hn.readable, ht.readable, ho.readable]), ?_⟩
  refine Json.bind_record rfl ?_
  refine Json.bind_field rfl hn.decoded ?_
  refine Json.bind_field rfl ht.decoded ?_
  exact Json.bind_field rfl ho.decoded rfl

theorem TypeDecl.isForm (d : TypeDecl) : IsForm TypeDecl.ofJson? d d.toJson :=
  TypeDecl.isForm_of d.name.isForm (Json.isForm_string d.typeText) (Json.isForm_bool d.optional)

theorem Contract.isForm_of {mapping : List TypeDecl} {span : Span} {jm js : Json}
    (hm : IsForm (Json.list? TypeDecl.ofJson?) mapping jm) (hs : IsForm Span.ofJson? span js) :
    IsForm Contract.ofJson? ⟨mapping, span⟩ (.object [("mapping", jm), ("span", js)]) := by
  refine ⟨.object (by simp [hm.readable, hs.readable]), ?_⟩
  refine Json.bind_record rfl ?_
  refine Json.bind_field rfl hm.decoded ?_
  exact Json.bind_field rfl hs.decoded rfl

theorem Contract.isForm (a : Contract) : IsForm Contract.ofJson? a a.toJson :=
  Contract.isForm_of (Json.isForm_list fun d _ => d.isForm) a.span.isForm

theorem GuardCheck.isForm (o : Origin) (c : GuardCheck) :
    IsForm (GuardCheck.ofJson? o) c c.toJson := by
  cases c with
  | isSet => exact ⟨.string _, rfl⟩
  | notNull => exact ⟨.string _, rfl⟩
  | hasType typeText =>
    refine ⟨Json.readable_tagged (.object (by simp [Json.Readable.string])), ?_⟩
    cases o <;> rfl

theorem Guard.isForm_of {o : Origin} {variableName : String} {check : GuardCheck} {jv jc : Json}
    (hv : IsForm Json.string? variableName jv) (hc : IsForm (GuardCheck.ofJson? o) check jc) :
    IsForm (Guard.ofJson? o) ⟨variableName, check⟩ (.object [("variable", jv), ("check", jc)]) := by
  refine ⟨.object (by simp [hv.readable, hc.readable]), ?_⟩
  refine Json.bind_record rfl ?_
  refine Json.bind_field rfl hv.decoded ?_
  exact Json.bind_field rfl hc.decoded rfl

theorem Guard.isForm (o : Origin) (g : Guard) : IsForm (Guard.ofJson? o) g g.toJson :=
  Guard.isForm_of (Json.isForm_string g.variableName) (g.check.isForm o)

theorem ImportedName.isForm_of {name : Ident} {renamed : Option Ident} {jn jr : Json}
    (hn : IsForm Ident.ofJson? name jn)
    (hr : IsForm (fun j => (Json.Field.given j).optional Ident.ofJson?) renamed jr) :
    IsForm ImportedName.ofJson? ⟨name, renamed⟩ (.object [("name", jn), ("alias", jr)]) := by
  refine ⟨.object (by simp [hn.readable, hr.readable]), ?_⟩
  refine Json.bind_record rfl ?_
  refine Json.bind_field rfl hn.decoded ?_
  exact Json.bind_field rfl hr.decoded rfl

theorem ImportedName.isForm (i : ImportedName) : IsForm ImportedName.ofJson? i i.toJson :=
  ImportedName.isForm_of i.name.isForm (Json.isForm_option (fun r _ => r.isForm) nofun)

theorem ImportKind.isForm_whole {localName : Ident} {j : Json}
    (h : IsForm Ident.ofJson? localName j) :
    IsForm ImportKind.ofJson? (.whole localName) (.tagged "Namespace" j) := by
  refine ⟨Json.readable_tagged h.readable, ?_⟩
  refine Json.bind_value rfl ?_
  exact Json.bind_value h.decoded rfl

theorem ImportKind.isForm_names {list : List ImportedName} {j : Json}
    (h : IsForm (Json.list? ImportedName.ofJson?) list j) :
    IsForm ImportKind.ofJson? (.names list) (.tagged "Names" j) := by
  refine ⟨Json.readable_tagged h.readable, ?_⟩
  refine Json.bind_value rfl ?_
  exact Json.bind_value h.decoded rfl

theorem ImportKind.isForm (k : ImportKind) : IsForm ImportKind.ofJson? k k.toJson := by
  cases k with
  | whole localName => exact ImportKind.isForm_whole localName.isForm
  | names list => exact ImportKind.isForm_names (Json.isForm_list fun i _ => i.isForm)

/-! ### Number literals -/

/-- Every number literal among expressions is finite, and its text reads back. -/
def Literals (es : List Expr) : Prop :=
  ∀ s x, Expr.number s x ∈ es → x.isFinite = true ∧ x.ReadsBack

namespace Literals

theorem mono {es fs : List Expr} (h : Literals fs) (hsub : ∀ e ∈ es, e ∈ fs) : Literals es :=
  fun s x hx => h s x (hsub _ hx)

theorem tail {e : Expr} {es : List Expr} (h : Literals (e :: es)) : Literals es :=
  h.mono fun _ he => List.mem_cons_of_mem e he

theorem left {es fs : List Expr} (h : Literals (es ++ fs)) : Literals es :=
  h.mono fun _ he => List.mem_append_left fs he

theorem right {es fs : List Expr} (h : Literals (es ++ fs)) : Literals fs :=
  h.mono fun _ he => List.mem_append_right es he

theorem items {items : List Expr} (h : Literals (Expr.itemsExprs items)) :
    ∀ e ∈ items, Literals e.subexprs := by
  induction items with
  | nil => nofun
  | cons e rest ih => exact List.forall_mem_cons.mpr ⟨h.left, ih h.right⟩

theorem pairs {pairs : List (Expr × Expr)} (h : Literals (Expr.pairsExprs pairs)) :
    ∀ p ∈ pairs, Literals p.1.subexprs ∧ Literals p.2.subexprs := by
  induction pairs with
  | nil => nofun
  | cons p rest ih =>
    exact List.forall_mem_cons.mpr ⟨⟨h.left.left, h.left.right⟩, ih h.right⟩

theorem arguments {arguments : List (Argument Expr)}
    (h : Literals (Expr.argumentsExprs arguments)) :
    ∀ a ∈ arguments, Literals a.value.subexprs := by
  induction arguments with
  | nil => nofun
  | cons a rest ih => exact List.forall_mem_cons.mpr ⟨h.left, ih h.right⟩

theorem flatMap {es : List Expr} (h : Literals (es.flatMap (·.subexprs))) :
    ∀ e ∈ es, Literals e.subexprs :=
  fun e he => h.mono fun _ hf => List.mem_flatMap.mpr ⟨e, he, hf⟩

theorem body {body : List Stmt} (h : Literals (Stmt.bodyExprs body)) :
    ∀ s ∈ body, Literals s.exprs := by
  induction body with
  | nil => nofun
  | cons s rest ih => exact List.forall_mem_cons.mpr ⟨h.left, ih h.right⟩

theorem branches {branches : List (Branch Stmt)} (h : Literals (Stmt.branchesExprs branches)) :
    ∀ b ∈ branches, Literals b.condition.subexprs ∧ ∀ s ∈ b.body, Literals s.exprs := by
  induction branches with
  | nil => nofun
  | cons b rest ih =>
    exact List.forall_mem_cons.mpr ⟨⟨h.left.left, h.left.right.body⟩, ih h.right⟩

end Literals

/-! ### Expressions -/

namespace Json

theorem depth_le_itemsDepth {j : Json} {items : List Json} (h : j ∈ items) :
    depth j ≤ itemsDepth items := by
  induction items with
  | nil => cases h
  | cons k rest ih =>
    rw [itemsDepth]
    rcases List.mem_cons.mp h with rfl | h
    · omega
    · have hrest := ih h
      omega

theorem depth_le_membersDepth {m : String × Json} {members : List (String × Json)}
    (h : m ∈ members) : depth m.2 ≤ membersDepth members := by
  induction members with
  | nil => cases h
  | cons n rest ih =>
    rw [membersDepth]
    rcases List.mem_cons.mp h with rfl | h
    · omega
    · have hrest := ih h
      omega

theorem depth_lt_of_item {items : List Json} {bound : Nat} (hd : depth (.array items) < bound)
    {j : Json} (h : j ∈ items) : depth j < bound := by
  have hle := depth_le_itemsDepth h
  rw [depth] at hd
  omega

theorem depth_lt_of_member {members : List (String × Json)} {bound : Nat}
    (hd : depth (.object members) < bound) (key : String) {j : Json} (h : (key, j) ∈ members) :
    depth j < bound := by
  have hle : depth j ≤ membersDepth members := depth_le_membersDepth h
  rw [depth] at hd
  omega

end Json

namespace Expr

variable {o : Origin} {read : Json → Option Expr} {s : Span}

theorem isForm_argument {name : Option String} {value : Expr} {jn jv : Json}
    (hn : IsForm (fun j => (Json.Field.given j).optional Json.string?) name jn)
    (hv : IsForm read value jv) :
    IsForm (argument? read) ⟨name, value⟩ (.object [("name", jn), ("value", jv)]) := by
  refine ⟨.object (by simp [hn.readable, hv.readable]), ?_⟩
  refine Json.bind_record rfl ?_
  refine Json.bind_field rfl hn.decoded ?_
  exact Json.bind_field rfl hv.decoded rfl

theorem isForm_pair {k v : Expr} {jk jv : Json} (hk : IsForm read k jk) (hv : IsForm read v jv) :
    IsForm (pair? read) (k, v) (.array [jk, jv]) := by
  refine ⟨.array (by simp [hk.readable, hv.readable]), ?_⟩
  refine Json.bind_value hk.decoded ?_
  exact Json.bind_value hv.decoded rfl

/-- An expression is decoded from the form of its content. -/
theorem isForm_content {bound : Nat} {kind : String} {e : Expr} {jc js : Json}
    (hc : IsForm (content? o (readWithin o bound) s kind) e jc) (hs : IsForm Span.ofJson? s js) :
    IsForm (readWithin o (bound + 1)) e (.object [("kind", .tagged kind jc), ("span", js)]) := by
  refine ⟨.object (by simp [Json.readable_tagged hc.readable, hs.readable]), ?_⟩
  refine Json.bind_record rfl ?_
  refine Json.bind_field rfl rfl ?_
  exact Json.bind_field rfl hs.decoded hc.decoded

theorem isForm_null {bound : Nat} {js : Json} (hs : IsForm Span.ofJson? s js) :
    IsForm (readWithin o (bound + 1)) (.null s)
      (.object [("kind", .string "Null"), ("span", js)]) := by
  refine ⟨.object (by simp [Json.Readable.string, hs.readable]), ?_⟩
  refine Json.bind_record rfl ?_
  refine Json.bind_field rfl rfl ?_
  exact Json.bind_field rfl hs.decoded rfl

theorem isForm_bool {b : Bool} {j : Json} (h : IsForm Json.bool? b j) :
    IsForm (content? o read s "Bool") (.bool s b) j :=
  ⟨h.readable, congrArg (Option.map (Expr.bool s)) h.decoded⟩

theorem isForm_number {x : Binary64} {j : Json} (h : IsForm Json.double? x j) :
    IsForm (content? o read s "Number") (.number s x) j :=
  ⟨h.readable, congrArg (Option.map (Expr.number s)) h.decoded⟩

theorem isForm_string {t : String} {j : Json} (h : IsForm Json.string? t j) :
    IsForm (content? o read s "String") (.string s t) j :=
  ⟨h.readable, congrArg (Option.map (Expr.string s)) h.decoded⟩

theorem isForm_array {items : List Expr} {j : Json} (h : IsForm (Json.list? read) items j) :
    IsForm (content? o read s "Array") (.array s items) j :=
  ⟨h.readable, congrArg (Option.map (Expr.array s)) h.decoded⟩

theorem isForm_hash {pairs : List (Expr × Expr)} {j : Json}
    (h : IsForm (Json.list? (pair? read)) pairs j) :
    IsForm (content? o read s "Hash") (.hash s pairs) j :=
  ⟨h.readable, congrArg (Option.map (Expr.hash s)) h.decoded⟩

theorem isForm_name {n : String} {j : Json} (h : IsForm Json.string? n j) :
    IsForm (content? o read s "Name") (.name s n) j :=
  ⟨h.readable, congrArg (Option.map (Expr.name s)) h.decoded⟩

theorem isForm_member {receiver : Expr} {attr : String} {access : AccessKind}
    {arguments : List (Argument Expr)} {jr jt jk ja : Json} (hr : IsForm read receiver jr)
    (ht : IsForm Json.string? attr jt)
    (hk : IsForm (Json.oneOf? AccessKind.text AccessKind.all) access jk)
    (ha : IsForm (Json.list? (argument? read)) arguments ja) :
    IsForm (content? o read s "GetAttr") (.member s receiver attr access arguments)
      (.object [("receiver", jr), ("attribute", jt), ("access", jk), ("arguments", ja)]) := by
  refine ⟨.object (by simp [hr.readable, ht.readable, hk.readable, ha.readable]), ?_⟩
  refine Json.bind_fields rfl ?_
  refine Json.bind_field rfl hr.decoded ?_
  refine Json.bind_field rfl ht.decoded ?_
  refine Json.bind_field rfl hk.decoded ?_
  exact Json.bind_field rfl ha.decoded rfl

theorem isForm_macroCall {target : MacroTarget} {n : String} {arguments : List (Argument Expr)}
    {jt jn ja : Json} (ht : IsForm MacroTarget.ofJson? target jt) (hn : IsForm Json.string? n jn)
    (ha : IsForm (Json.list? (argument? read)) arguments ja) :
    IsForm (content? o read s "MacroCall") (.macroCall s target n arguments)
      (.object [("target", jt), ("name", jn), ("arguments", ja)]) := by
  refine ⟨.object (by simp [ht.readable, hn.readable, ha.readable]), ?_⟩
  refine Json.bind_record rfl ?_
  refine Json.bind_field rfl ht.decoded ?_
  refine Json.bind_field rfl hn.decoded ?_
  exact Json.bind_field rfl ha.decoded rfl

theorem isForm_function {n : String} {arguments : List (Argument Expr)} {jn ja : Json}
    (hn : IsForm Json.string? n jn) (ha : IsForm (Json.list? (argument? read)) arguments ja) :
    IsForm (content? o read s "Function") (.function s n arguments)
      (.object [("name", jn), ("arguments", ja)]) := by
  refine ⟨.object (by simp [hn.readable, ha.readable]), ?_⟩
  refine Json.bind_fields rfl ?_
  refine Json.bind_field rfl hn.decoded ?_
  exact Json.bind_field rfl ha.decoded rfl

theorem isForm_call {input : Expr} {n : String} {arguments : List (Argument Expr)}
    {ji jn ja : Json} (hi : IsForm read input ji) (hn : IsForm Json.string? n jn)
    (ha : IsForm (Json.list? (argument? read)) arguments ja) :
    IsForm (call? o read) (input, n, arguments)
      (.object [("input", ji), ("name", jn), ("arguments", ja)]) := by
  refine ⟨.object (by simp [hi.readable, hn.readable, ha.readable]), ?_⟩
  refine Json.bind_fields rfl ?_
  refine Json.bind_field rfl hi.decoded ?_
  refine Json.bind_field rfl hn.decoded ?_
  exact Json.bind_field rfl ha.decoded rfl

theorem isForm_filter {input : Expr} {n : String} {arguments : List (Argument Expr)} {j : Json}
    (h : IsForm (call? o read) (input, n, arguments) j) :
    IsForm (content? o read s "Filter") (.filter s input n arguments) j := by
  refine ⟨h.readable, ?_⟩
  exact Json.bind_value h.decoded rfl

theorem isForm_test {input : Expr} {n : String} {arguments : List (Argument Expr)} {j : Json}
    (h : IsForm (call? o read) (input, n, arguments) j) :
    IsForm (content? o read s "Test") (.test s input n arguments) j := by
  refine ⟨h.readable, ?_⟩
  exact Json.bind_value h.decoded rfl

theorem isForm_lambda {params : List Ident} {body : Expr} {jp jb : Json}
    (hp : IsForm (Json.list? Ident.ofJson?) params jp) (hb : IsForm read body jb) :
    IsForm (content? o read s "Lambda") (.lambda s params body)
      (.object [("params", jp), ("body", jb)]) := by
  refine ⟨.object (by simp [hp.readable, hb.readable]), ?_⟩
  refine Json.bind_fields rfl ?_
  refine Json.bind_field rfl hp.decoded ?_
  exact Json.bind_field rfl hb.decoded rfl

theorem isForm_binary {op : String} {left right : Expr} {jo jl jr : Json}
    (ho : IsForm Json.string? op jo) (hl : IsForm read left jl) (hr : IsForm read right jr) :
    IsForm (content? o read s "Binary") (.binary s op left right)
      (.object [("op", jo), ("left", jl), ("right", jr)]) := by
  refine ⟨.object (by simp [ho.readable, hl.readable, hr.readable]), ?_⟩
  refine Json.bind_fields rfl ?_
  refine Json.bind_field rfl ho.decoded ?_
  refine Json.bind_field rfl hl.decoded ?_
  exact Json.bind_field rfl hr.decoded rfl

theorem isForm_unary {op : String} {operand : Expr} {jo je : Json}
    (ho : IsForm Json.string? op jo) (he : IsForm read operand je) :
    IsForm (content? o read s "Unary") (.unary s op operand)
      (.object [("op", jo), ("operand", je)]) := by
  refine ⟨.object (by simp [ho.readable, he.readable]), ?_⟩
  refine Json.bind_fields rfl ?_
  refine Json.bind_field rfl ho.decoded ?_
  exact Json.bind_field rfl he.decoded rfl

theorem isForm_conditional {condition yes no : Expr} {jc jy jn : Json}
    (hc : IsForm read condition jc) (hy : IsForm read yes jy) (hn : IsForm read no jn) :
    IsForm (content? o read s "Conditional") (.conditional s condition yes no)
      (.object [("condition", jc), ("then", jy), ("otherwise", jn)]) := by
  refine ⟨.object (by simp [hc.readable, hy.readable, hn.readable]), ?_⟩
  refine Json.bind_fields rfl ?_
  refine Json.bind_field rfl hc.decoded ?_
  refine Json.bind_field rfl hy.decoded ?_
  exact Json.bind_field rfl hn.decoded rfl

/-- Wherever it is read from, an expression is read from its form. -/
def HasForm (e : Expr) : Prop :=
  ∀ (o : Origin) (bound : Nat), e.toJson.depth < bound → IsForm (readWithin o bound) e e.toJson

theorem HasForm.ofJson? {e : Expr} (h : e.HasForm) (o : Origin) :
    IsForm (Expr.ofJson? o) e e.toJson := by
  have hform := h o (e.toJson.depth + 1) (Nat.lt_succ_self _)
  exact ⟨hform.readable, hform.decoded⟩

/-- One step of the reader: it reads the parts of the content with a bound that is smaller by one,
and the content is nested less deep by two. -/
theorem hasForm_of_content {e : Expr} {s : Span} {kind : String} {jc : Json}
    (he : e.toJson = .object [("kind", .tagged kind jc), ("span", s.toJson)])
    (h : ∀ (o : Origin) (bound : Nat), jc.depth < bound →
      IsForm (content? o (readWithin o bound) s kind) e jc) : e.HasForm := by
  intro o bound hd
  obtain ⟨bound, rfl⟩ : ∃ k, bound = k + 1 := ⟨bound - 1, by omega⟩
  have hcontent : jc.depth < bound := by
    simp only [he, Json.tagged, Json.depth, Json.membersDepth] at hd
    omega
  rw [he]
  exact isForm_content (h o bound hcontent) s.isForm

theorem itemsJson_eq_map (items : List Expr) : itemsJson items = items.map toJson := by
  induction items with
  | nil => rfl
  | cons e rest ih => rw [itemsJson, ih, List.map_cons]

theorem pairsJson_eq_map (pairs : List (Expr × Expr)) :
    pairsJson pairs = pairs.map fun p => .array [p.1.toJson, p.2.toJson] := by
  induction pairs with
  | nil => rfl
  | cons p rest ih => rw [pairsJson, ih, List.map_cons]

theorem argumentsJson_eq_map (arguments : List (Argument Expr)) :
    argumentsJson arguments = arguments.map fun a =>
      .object [("name", .option .string a.name), ("value", a.value.toJson)] := by
  induction arguments with
  | nil => rfl
  | cons a rest ih => rw [argumentsJson, ih, List.map_cons]

theorem isForm_itemsJson {items : List Expr} (h : ∀ e ∈ items, e.HasForm) {bound : Nat}
    (hd : (Json.array (itemsJson items)).depth < bound) :
    IsForm (Json.list? (readWithin o bound)) items (.array (itemsJson items)) := by
  rw [itemsJson_eq_map] at hd ⊢
  exact Json.isForm_list fun e he =>
    h e he o bound (Json.depth_lt_of_item hd (List.mem_map_of_mem he))

theorem isForm_pairsJson {pairs : List (Expr × Expr)}
    (h : ∀ p ∈ pairs, p.1.HasForm ∧ p.2.HasForm) {bound : Nat}
    (hd : (Json.array (pairsJson pairs)).depth < bound) :
    IsForm (Json.list? (pair? (readWithin o bound))) pairs (.array (pairsJson pairs)) := by
  rw [pairsJson_eq_map] at hd ⊢
  refine Json.isForm_list fun p hp => ?_
  have hpair := Json.depth_lt_of_item hd (List.mem_map_of_mem hp)
  exact isForm_pair ((h p hp).1 o bound (Json.depth_lt_of_item hpair (by simp)))
    ((h p hp).2 o bound (Json.depth_lt_of_item hpair (by simp)))

theorem isForm_argumentsJson {arguments : List (Argument Expr)}
    (h : ∀ a ∈ arguments, a.value.HasForm) {bound : Nat}
    (hd : (Json.array (argumentsJson arguments)).depth < bound) :
    IsForm (Json.list? (argument? (readWithin o bound))) arguments
      (.array (argumentsJson arguments)) := by
  rw [argumentsJson_eq_map] at hd ⊢
  refine Json.isForm_list fun a ha => ?_
  have hargument := Json.depth_lt_of_item hd (List.mem_map_of_mem ha)
  exact isForm_argument (Json.isForm_option (fun n _ => Json.isForm_string n) nofun)
    (h a ha o bound (Json.depth_lt_of_member hargument "value" (by simp)))

/-- Every expression has its form. -/
theorem hasForm (e : Expr) (h : Literals e.subexprs) : e.HasForm := by
  induction e with
  | null s =>
    intro o bound hd
    obtain ⟨bound, rfl⟩ : ∃ k, bound = k + 1 := ⟨bound - 1, by omega⟩
    exact isForm_null s.isForm
  | bool s b => exact hasForm_of_content rfl fun o bound _ => isForm_bool (Json.isForm_bool b)
  | number s x =>
    have hx := h s x List.mem_cons_self
    exact hasForm_of_content rfl fun o bound _ => isForm_number (Json.isForm_double hx.1 hx.2)
  | string s t =>
    exact hasForm_of_content rfl fun o bound _ => isForm_string (Json.isForm_string t)
  | array s items ih =>
    refine hasForm_of_content rfl fun o bound hd => isForm_array ?_
    exact isForm_itemsJson (fun e he => ih e he (h.tail.items e he)) hd
  | hash s pairs ih =>
    refine hasForm_of_content rfl fun o bound hd => isForm_hash ?_
    have hpairs := h.tail.pairs
    exact isForm_pairsJson (fun p hp =>
      ⟨(ih p hp).1 (hpairs p hp).1, (ih p hp).2 (hpairs p hp).2⟩) hd
  | name s n => exact hasForm_of_content rfl fun o bound _ => isForm_name (Json.isForm_string n)
  | member s receiver attr access arguments ihr iha =>
    refine hasForm_of_content rfl fun o bound hd => ?_
    have hreceiver : receiver.toJson.depth < bound :=
      Json.depth_lt_of_member hd "receiver" (by simp)
    have hform := ihr h.tail.left o bound hreceiver
    exact isForm_member hform (Json.isForm_string attr) access.isForm
      (isForm_argumentsJson (fun a ha => iha a ha (h.tail.right.arguments a ha))
        (Json.depth_lt_of_member hd "arguments" (by simp)))
  | macroCall s target n arguments iha =>
    refine hasForm_of_content rfl fun o bound hd => ?_
    exact isForm_macroCall target.isForm (Json.isForm_string n)
      (isForm_argumentsJson (fun a ha => iha a ha (h.tail.arguments a ha))
        (Json.depth_lt_of_member hd "arguments" (by simp)))
  | function s n arguments iha =>
    refine hasForm_of_content rfl fun o bound hd => ?_
    exact isForm_function (Json.isForm_string n)
      (isForm_argumentsJson (fun a ha => iha a ha (h.tail.arguments a ha))
        (Json.depth_lt_of_member hd "arguments" (by simp)))
  | filter s input n arguments ihi iha =>
    refine hasForm_of_content rfl fun o bound hd => isForm_filter ?_
    have hinput : input.toJson.depth < bound := Json.depth_lt_of_member hd "input" (by simp)
    have hform := ihi h.tail.left o bound hinput
    exact isForm_call hform (Json.isForm_string n)
      (isForm_argumentsJson (fun a ha => iha a ha (h.tail.right.arguments a ha))
        (Json.depth_lt_of_member hd "arguments" (by simp)))
  | test s input n arguments ihi iha =>
    refine hasForm_of_content rfl fun o bound hd => isForm_test ?_
    have hinput : input.toJson.depth < bound := Json.depth_lt_of_member hd "input" (by simp)
    have hform := ihi h.tail.left o bound hinput
    exact isForm_call hform (Json.isForm_string n)
      (isForm_argumentsJson (fun a ha => iha a ha (h.tail.right.arguments a ha))
        (Json.depth_lt_of_member hd "arguments" (by simp)))
  | lambda s params body ih =>
    refine hasForm_of_content rfl fun o bound hd => ?_
    have hbody : body.toJson.depth < bound := Json.depth_lt_of_member hd "body" (by simp)
    exact isForm_lambda (Json.isForm_list fun p _ => p.isForm) (ih h.tail o bound hbody)
  | binary s op left right ihl ihr =>
    refine hasForm_of_content rfl fun o bound hd => ?_
    have hleft : left.toJson.depth < bound := Json.depth_lt_of_member hd "left" (by simp)
    have hright : right.toJson.depth < bound := Json.depth_lt_of_member hd "right" (by simp)
    exact isForm_binary (Json.isForm_string op) (ihl h.tail.left o bound hleft)
      (ihr h.tail.right o bound hright)
  | unary s op operand ih =>
    refine hasForm_of_content rfl fun o bound hd => ?_
    have hoperand : operand.toJson.depth < bound := Json.depth_lt_of_member hd "operand" (by simp)
    exact isForm_unary (Json.isForm_string op) (ih h.tail o bound hoperand)
  | conditional s condition yes no ihc ihy ihn =>
    refine hasForm_of_content rfl fun o bound hd => ?_
    have hcondition : condition.toJson.depth < bound :=
      Json.depth_lt_of_member hd "condition" (by simp)
    have hyes : yes.toJson.depth < bound := Json.depth_lt_of_member hd "then" (by simp)
    have hno : no.toJson.depth < bound := Json.depth_lt_of_member hd "otherwise" (by simp)
    exact isForm_conditional (ihc h.tail.left.left o bound hcondition)
      (ihy h.tail.left.right o bound hyes) (ihn h.tail.right o bound hno)

end Expr

end TemplateContracts
