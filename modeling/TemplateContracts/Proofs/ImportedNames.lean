import TemplateContracts.Proofs.WholeRun
import TemplateContracts.Template.Build

/-!
# What a name imported from another template stands for

The imports of a template bind names one after the other, each in place of what the name was bound
to before.  An import of a name that its template lacks binds nothing, so what the name was bound to
before stays.

* `NameEntry` : one name of an import, with the table it is looked up in;
* `Analyzer.nameEntries` : the entries of the imports of a template, in order;
* `Analyzer.resolve_imported_followAll` : **an imported name is what the last entry that binds it
  binds it to**; the last entry of the name decides unless it binds nothing behind one that does.
-/

namespace TemplateContracts

/-! ### Entries and what they bind -/

/-- One name of an import, with the table of the imported template if that is in sight. -/
structure NameEntry where
  localName : String
  /-- The name in the imported template. -/
  name : String
  table : Option MacroTable

namespace NameEntry

/-- What an entry binds its local name to; nothing if the table lacks the name. -/
def binding? (e : NameEntry) : Option (Imported Signature) :=
  match e.table with
  | none => some .hidden
  | some table => (table.get? e.name).map .known

/-- The entries of an import, given the table of its template if that is in sight. -/
def ofKind (table : Option MacroTable) : ImportKind → List NameEntry
  | .whole _ => []
  | .names list => list.map fun i => ⟨i.localName, i.name.name, table⟩

/-- The names in scope behind an entry. -/
def bindIn (m : Assoc (Imported Signature)) (e : NameEntry) : Assoc (Imported Signature) :=
  match e.binding? with
  | some b => m.set e.localName b
  | none => m

theorem get?_bindIn (m : Assoc (Imported Signature)) (e : NameEntry) (x : String) :
    (bindIn m e).get? x = if e.localName = x then e.binding?.or (m.get? x) else m.get? x := by
  unfold bindIn
  cases e.binding? with
  | none => rw [Option.none_or, ite_self]
  | some b =>
    rw [Assoc.get?_set, Option.some_or]
    by_cases hx : e.localName = x
    · rw [if_pos hx, if_pos hx.symm]
    · rw [if_neg hx, if_neg (Ne.symm hx)]

/-- The entries of a local name. -/
def named (es : List NameEntry) (x : String) : List NameEntry :=
  es.filter fun e => decide (e.localName = x)

/-- Behind entries in order, a name is what the last one that binds it binds it to. -/
theorem get?_foldl_bindIn (es : List NameEntry) (m : Assoc (Imported Signature)) (x : String) :
    (es.foldl bindIn m).get? x = ((named es x).filterMap binding?).getLast?.or (m.get? x) := by
  induction es generalizing m with
  | nil => rfl
  | cons e rest ih =>
    rw [List.foldl_cons, ih, get?_bindIn]
    by_cases hx : e.localName = x
    · have hnamed : named (e :: rest) x = e :: named rest x :=
        List.filter_cons_of_pos (decide_eq_true hx)
      rw [if_pos hx, hnamed]
      cases hb : e.binding? with
      | none => rw [List.filterMap_cons_none hb, Option.none_or]
      | some b =>
        rw [List.filterMap_cons_some hb, List.getLast?_cons, Option.some_or, Option.some_or]
        cases ((named rest x).filterMap binding?).getLast? <;> rfl
    · have hnamed : named (e :: rest) x = named rest x :=
        List.filter_cons_of_neg (by rw [decide_eq_false hx]; exact Bool.false_ne_true)
      rw [if_neg hx, hnamed]

end NameEntry

/-- What a call of a name turns out to be, given what the name is bound to. -/
def Resolution.ofBinding : Option (Imported Signature) → Resolution
  | some (.known s) => .resolved s
  | some .hidden => .hidden
  | none => .unknown

theorem Resolution.ofBinding_injective : Function.Injective ofBinding := by
  intro b b' h
  rcases b with - | ⟨s | -⟩ <;> rcases b' with - | ⟨s' | -⟩ <;> cases h <;> rfl

namespace Registry

theorem imported_bind (r : Registry) (kind : ImportKind) (table : Option MacroTable) :
    (r.bind kind table).imported
      = (NameEntry.ofKind table kind).foldl NameEntry.bindIn r.imported := by
  cases kind with
  | whole localName => rfl
  | names list =>
    rw [NameEntry.ofKind, List.foldl_map, bind]
    induction list generalizing r with
    | nil => rfl
    | cons i rest ih =>
      rw [List.foldl_cons, List.foldl_cons, ih]
      congr 1
      cases table with
      | none => rfl
      | some table =>
        unfold NameEntry.bindIn NameEntry.binding?
        dsimp only
        cases table.get? i.name.name <;> rfl

/-- A name that no macro of the template itself has. -/
theorem resolve_imported (r : Registry) {x : String} (hx : r.own.get? x = none) :
    r.resolve .imported x = .ofBinding (r.imported.get? x) := by
  unfold resolve
  rw [hx]
  dsimp only
  rcases r.imported.get? x with - | ⟨s | -⟩ <;> rfl

end Registry

namespace Analyzer

variable (a : Analyzer) (root : Template)

/-- The entries of imports in order, for a template with its own table. -/
def nameEntries (own : MacroTable) (is : List Import) : List NameEntry :=
  is.flatMap fun i => NameEntry.ofKind (a.tableOf root own i) i.kind

theorem own_bindImports (own : MacroTable) (is : List Import) (registry : Registry) :
    (a.bindImports root own is registry).own = registry.own := by
  induction is generalizing registry with
  | nil => rfl
  | cons i rest ih => exact (ih _).trans (registry.own_bind i.kind _)

theorem imported_bindImports (own : MacroTable) (is : List Import) (registry : Registry) :
    (a.bindImports root own is registry).imported
      = (a.nameEntries root own is).foldl NameEntry.bindIn registry.imported := by
  induction is generalizing registry with
  | nil => rfl
  | cons i rest ih =>
    rw [nameEntries, List.flatMap_cons, List.foldl_append, ← Registry.imported_bind]
    exact ih _

end Analyzer

/-! ### The last import of a name -/

namespace NameEntry

/-- The last entry gives the last binding, unless it binds nothing and an earlier one does. -/
theorem getLast?_bindings_eq_iff (es : List NameEntry) :
    (es.filterMap binding?).getLast? = es.getLast?.bind binding? ↔
      ∀ e ∈ es.getLast?, e.binding? = none → es.filterMap binding? = [] := by
  rcases List.eq_nil_or_concat es with rfl | ⟨init, last, rfl⟩
  · simp
  · rw [List.concat_eq_append, List.filterMap_append, List.getLast?_append, List.getLast?_concat]
    cases hb : last.binding? with
    | none => simp [hb]
    | some b => simp [hb]

end NameEntry

namespace Analyzer

/-- **The last import that binds a name decides.**  The imports of a template are followed with
anything remembered that is true of a run, as at its start (`coherent_root`) and behind every visit
(`keepsCoherent_visit`).  Then a name that is no macro of the template itself is what the last entry
that binds it binds it to, and unknown if none does.  It is what the last entry of the name alone
makes of it if and only if that entry binds the name or no earlier entry does. -/
theorem resolve_imported_followAll (a : Analyzer) (root t : Template) (bound : Nat)
    {cache : ImportCache} (hc : Coherent a root cache) {x : String}
    (hx : t.macroTable.get? x = none) :
    let registry :=
      (a.followAll (a.visit bound) t.name t.imports { own := t.macroTable } cache).1
    let entries := NameEntry.named (a.nameEntries root t.macroTable t.imports) x
    registry.resolve .imported x = .ofBinding (entries.filterMap NameEntry.binding?).getLast? ∧
      (registry.resolve .imported x = .ofBinding (entries.getLast?.bind NameEntry.binding?) ↔
        ∀ e ∈ entries.getLast?, e.binding? = none →
          entries.filterMap NameEntry.binding? = []) := by
  intro registry entries
  have hvisit : KeepsCoherent a root (a.visit bound) := keepsCoherent_visit a root bound
  have hregistry : registry = a.bindImports root t.macroTable t.imports { own := t.macroTable } :=
    (hvisit.followAll hc t.name t.imports { own := t.macroTable }).1
  have hown : registry.own.get? x = none := by rw [hregistry, own_bindImports, hx]
  have hlast : registry.resolve .imported x
      = .ofBinding (entries.filterMap NameEntry.binding?).getLast? := by
    rw [registry.resolve_imported hown, hregistry, imported_bindImports,
      NameEntry.get?_foldl_bindIn, Assoc.get?_nil, Option.or_none]
  refine ⟨hlast, ?_⟩
  rw [hlast, Resolution.ofBinding_injective.eq_iff]
  exact NameEntry.getLast?_bindings_eq_iff entries

/-- Everything that the root of a run can call. -/
def rootRegistry (a : Analyzer) (root : Template) : Registry := (a.rootImports root).1

/-- Two templates to import from, of which one declares a macro. -/
def twoSources : Analyzer where
  loader := .ofTemplates
    [.ofBody "a.twig" [.macroOnLine "f" [] [] 1], .ofBody "b.twig" [.text "b" (.ofLine 1)]]

/-- A template that imports a macro and then, under its name, one that does not exist. -/
def rebinding : Template :=
  .ofBody "page.twig"
    [.fromOnLine (.string (.ofLine 1) "a.twig") [("f", none)] 1,
     .fromOnLine (.string (.ofLine 2) "b.twig") [("g", some "f")] 2,
     .printed (.macroCall (.ofLine 3) .imported "f" [])]

theorem resolve_imported_rebinding :
    Coherent twoSources rebinding (rootCache rebinding) ∧
      rebinding.macroTable.get? "f" = none ∧
      (twoSources.rootRegistry rebinding).resolve .imported "f"
        = .resolved ⟨"f", [], false⟩ := by
  have hc : Coherent twoSources rebinding (rootCache rebinding) :=
    (coherent_root twoSources rebinding).start rebinding.name
  have hx : rebinding.macroTable.get? "f" = none := by decide
  have hlast := (resolve_imported_followAll twoSources rebinding rebinding 2 hc hx).1
  exact ⟨hc, hx, hlast.trans (by decide)⟩

/-- The last entry of the name makes it unknown, but it is not, and the call is not reported. -/
theorem resolve_imported_ne_last :
    Resolution.ofBinding ((NameEntry.named (twoSources.nameEntries rebinding rebinding.macroTable
        rebinding.imports) "f").getLast?.bind NameEntry.binding?) = .unknown ∧
      (twoSources.rootRegistry rebinding).resolve .imported "f" ≠ .unknown ∧
      twoSources.findings rebinding = [] := by
  decide

end Analyzer

end TemplateContracts
