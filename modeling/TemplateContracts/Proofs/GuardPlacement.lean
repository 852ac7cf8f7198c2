import TemplateContracts.Guard.Synthesis
import TemplateContracts.Proofs.Induction

/-!
# Where guards are put

Guards are put into a template by a rewrite that rebuilds every loop, branch and macro from its
fields.  All it changes are `types` statements without guards.  The rewrite, and the one that takes
guards out again, are the same walk over the blocks of a template with another change at its leaves,
so their laws are laws of these changes.

* `Stmt.blocks`, `Stmt.frame` : what stands inside of a statement, and the statement around it;
* `Stmt.stmtAt?`, `Template.stmtAt?` : the statement at a place, at any depth;
* `Stmt.mapLeaves` : the change of every statement without blocks, at any depth;
* `Stmt.mapLeaves_cases`, `Stmt.stmtAt?_mapLeaves` : two changes after each other, and what a
  change does at a place;
* `Template.instrument_changes_types_only` : **only `types` statements change, each into itself with
  its guards**.
-/

namespace TemplateContracts

namespace Stmt

/-! ### Blocks and places -/

/-- The blocks of statements inside of a statement, in order; an `else` comes last. -/
def blocks : Stmt → List (List Stmt)
  | loop _ _ _ body orElse _ => [body, orElse]
  | branch branches orElse _ => branches.map (·.body) ++ [orElse]
  | macroDecl _ _ body _ => [body]
  | text _ _ | print _ _ | types _ | guarded _ _ | assign _ _ _ | imports _ => []

/-- A statement with nothing in its blocks.  One without blocks is its own frame. -/
def frame : Stmt → Stmt
  | loop key value source _ _ s => loop key value source [] [] s
  | branch branches _ s => branch (branches.map fun b => ⟨b.condition, []⟩) [] s
  | macroDecl name params _ s => macroDecl name params [] s
  | s => s

/-- The statement at a place inside of a statement: the number of a block and a position in it, then
the same inside of the statement there, and so on. -/
def stmtAt? : Stmt → List (Nat × Nat) → Option Stmt
  | s, [] => some s
  | s, (block, i) :: place =>
    (s.blocks[block]?.bind fun body => body[i]?).bind fun t => stmtAt? t place

/-! ### Changes at the leaves -/

mutual

/-- A statement whose statements without blocks, at any depth, are changed. -/
def mapLeaves (f : Stmt → Stmt) : Stmt → Stmt
  | loop key value source body orElse s =>
    loop key value source (mapBody f body) (mapBody f orElse) s
  | branch branches orElse s => branch (mapBranches f branches) (mapBody f orElse) s
  | macroDecl name params body s => macroDecl name params (mapBody f body) s
  | s => f s

/-- Statements whose statements without blocks are changed. -/
def mapBody (f : Stmt → Stmt) : List Stmt → List Stmt
  | [] => []
  | s :: rest => mapLeaves f s :: mapBody f rest

/-- Branches whose statements without blocks are changed. -/
def mapBranches (f : Stmt → Stmt) : List (Branch Stmt) → List (Branch Stmt)
  | [] => []
  | ⟨condition, body⟩ :: rest => ⟨condition, mapBody f body⟩ :: mapBranches f rest

end

theorem mapBody_eq (f : Stmt → Stmt) (body : List Stmt) :
    mapBody f body = body.map (mapLeaves f) := by
  induction body with
  | nil => rfl
  | cons s rest ih => rw [mapBody, ih, List.map_cons]

theorem mapBranches_eq (f : Stmt → Stmt) (branches : List (Branch Stmt)) :
    mapBranches f branches
      = branches.map fun b => ⟨b.condition, b.body.map (mapLeaves f)⟩ := by
  induction branches with
  | nil => rfl
  | cons b rest ih =>
    obtain ⟨condition, body⟩ := b
    rw [mapBranches, ih, mapBody_eq, List.map_cons]

/-- A change makes no blocks where there were none. -/
def KeepsLeaves (f : Stmt → Stmt) : Prop := ∀ s : Stmt, s.blocks = [] → (f s).blocks = []

theorem mapLeaves_of_leaf (f : Stmt → Stmt) {s : Stmt} (h : s.blocks = []) :
    s.mapLeaves f = f s := by
  cases s with
  | loop => cases h
  | branch => simp [blocks] at h
  | macroDecl => cases h
  | _ => rfl

theorem mapLeaves_mapLeaves_of_leaf {f g : Stmt → Stmt} (hg : KeepsLeaves g) {s : Stmt}
    (hs : s.blocks = []) : (s.mapLeaves g).mapLeaves f = s.mapLeaves fun t => f (g t) := by
  rw [mapLeaves_of_leaf g hs, mapLeaves_of_leaf f (hg s hs), mapLeaves_of_leaf _ hs]

/-- **Two changes after each other are one change.**  Each function over the blocks opens by its
equation three times: for `g`, for `f` over its result, and for both. -/
theorem mapLeaves_cases (f : Stmt → Stmt) {g : Stmt → Stmt} (hg : KeepsLeaves g) : Cases
    (fun s => (s.mapLeaves g).mapLeaves f = s.mapLeaves fun t => f (g t))
    (fun body => mapBody f (mapBody g body) = mapBody (fun t => f (g t)) body)
    (fun branches => mapBranches f (mapBranches g branches)
      = mapBranches (fun t => f (g t)) branches) where
  text _ _ := mapLeaves_mapLeaves_of_leaf hg rfl
  print _ _ := mapLeaves_mapLeaves_of_leaf hg rfl
  types _ := mapLeaves_mapLeaves_of_leaf hg rfl
  guarded _ _ := mapLeaves_mapLeaves_of_leaf hg rfl
  assign _ _ _ := mapLeaves_mapLeaves_of_leaf hg rfl
  loop _ _ _ _ _ _ hbody helse := by rw [mapLeaves, mapLeaves, mapLeaves, hbody, helse]
  branch _ _ _ hbranches helse := by rw [mapLeaves, mapLeaves, mapLeaves, hbranches, helse]
  macroDecl _ _ _ _ hbody := by rw [mapLeaves, mapLeaves, mapLeaves, hbody]
  imports _ := mapLeaves_mapLeaves_of_leaf hg rfl
  body_nil := rfl
  body_cons _ _ hs hrest := by rw [mapBody, mapBody, mapBody, hs, hrest]
  branches_nil := rfl
  branches_cons _ _ _ hbody hrest := by
    rw [mapBranches, mapBranches, mapBranches, hbody, hrest]

theorem mapBody_mapBody {f g : Stmt → Stmt} (hg : KeepsLeaves g) (body : List Stmt) :
    mapBody f (mapBody g body) = mapBody (fun t => f (g t)) body :=
  (mapLeaves_cases f hg).body body

theorem blocks_mapLeaves {f : Stmt → Stmt} (hf : KeepsLeaves f) (s : Stmt) :
    (s.mapLeaves f).blocks = s.blocks.map (List.map (mapLeaves f)) := by
  cases s with
  | loop key value source body orElse sp =>
    show [mapBody f body, mapBody f orElse] = _
    rw [mapBody_eq, mapBody_eq]
    rfl
  | branch branches orElse sp =>
    show (mapBranches f branches).map (·.body) ++ [mapBody f orElse] = _
    rw [mapBranches_eq, mapBody_eq, List.map_map]
    simp [blocks]
  | macroDecl name params body sp =>
    show [mapBody f body] = _
    rw [mapBody_eq]
    rfl
  -- a leaf has no blocks, and `f` gives it none
  | _ => exact hf _ rfl

/-- A change does in each place what it does to the statement there. -/
theorem stmtAt?_mapLeaves {f : Stmt → Stmt} (hf : KeepsLeaves f) (s : Stmt)
    (place : List (Nat × Nat)) :
    (s.mapLeaves f).stmtAt? place = (s.stmtAt? place).map (mapLeaves f) := by
  induction place generalizing s with
  | nil => rfl
  | cons step place ih =>
    obtain ⟨block, i⟩ := step
    rw [stmtAt?, stmtAt?, blocks_mapLeaves hf, List.getElem?_map]
    cases s.blocks[block]? with
    | none => rfl
    | some body =>
      simp only [Option.map_some, Option.bind_some, List.getElem?_map]
      cases body[i]? with
      | none => rfl
      | some t => exact ih t

/-- What stands around blocks does not change. -/
theorem frame_mapLeaves (f : Stmt → Stmt) {s : Stmt} (h : s.blocks ≠ []) :
    (s.mapLeaves f).frame = s.frame := by
  cases s with
  | loop => rfl
  | branch branches orElse sp =>
    show branch ((mapBranches f branches).map fun b => ⟨b.condition, []⟩) [] sp = _
    rw [mapBranches_eq, List.map_map]
    rfl
  | macroDecl => rfl
  | _ => exact absurd rfl h

/-! ### Guards in and out -/

/-- A `types` statement without guards gets them. -/
def addGuards : Stmt → Stmt
  | types a => guarded a a.synthesize
  | s => s

/-- A `types` statement with guards loses them. -/
def dropGuards : Stmt → Stmt
  | guarded a _ => types a
  | s => s

theorem keepsLeaves_addGuards : KeepsLeaves addGuards := by
  intro s hs
  cases s <;> first | rfl | exact hs

theorem addGuards_addGuards (s : Stmt) : s.addGuards.addGuards = s.addGuards := by
  cases s <;> rfl

theorem dropGuards_addGuards (s : Stmt) : s.addGuards.dropGuards = s.dropGuards := by
  cases s <;> rfl

/-- A statement with guards put in is no `types` statement without guards. -/
theorem mapLeaves_addGuards_ne_types (s : Stmt) (a : Contract) :
    s.mapLeaves addGuards ≠ types a := by
  cases s <;> nofun

theorem mapLeaves_addGuards_of_leaf (s : Stmt) (h : ∀ a, s ≠ types a) (hleaf : s.blocks = []) :
    s.mapLeaves addGuards = s := by
  rw [mapLeaves_of_leaf _ hleaf]
  cases s with
  | types a => exact absurd rfl (h a)
  | _ => rfl

theorem frame_mapLeaves_addGuards (s : Stmt) (h : ∀ a, s ≠ types a) :
    (s.mapLeaves addGuards).frame = s.frame := by
  by_cases hleaf : s.blocks = []
  · rw [s.mapLeaves_addGuards_of_leaf h hleaf]
  · exact frame_mapLeaves addGuards hleaf

/-- Putting guards in changes leaves only. -/
theorem instrument_cases : Cases (fun s => s.instrument = s.mapLeaves addGuards)
    (fun body => instrumentBody body = mapBody addGuards body)
    (fun branches => instrumentBranches branches = mapBranches addGuards branches) where
  text _ _ := rfl
  print _ _ := rfl
  types _ := rfl
  guarded _ _ := rfl
  assign _ _ _ := rfl
  loop _ _ _ _ _ _ hbody helse := by rw [instrument, mapLeaves, hbody, helse]
  branch _ _ _ hbranches helse := by rw [instrument, mapLeaves, hbranches, helse]
  macroDecl _ _ _ _ hbody := by rw [instrument, mapLeaves, hbody]
  imports _ := rfl
  body_nil := rfl
  body_cons _ _ hs hrest := by rw [instrumentBody, mapBody, hs, hrest]
  branches_nil := rfl
  branches_cons _ _ _ hbody hrest := by rw [instrumentBranches, mapBranches, hbody, hrest]

theorem instrumentBody_eq (body : List Stmt) : instrumentBody body = mapBody addGuards body :=
  instrument_cases.body body

end Stmt

namespace Template

/-- A template with every guarded `types` statement, at any depth, without its guards. -/
def withoutGuards (m : Template) : Template :=
  { m with body := Stmt.mapBody Stmt.dropGuards m.body }

/-- The statement at a place in a template: a position at the top level, and a place inside of the
statement there. -/
def stmtAt? (m : Template) (i : Nat) (place : List (Nat × Nat)) : Option Stmt :=
  m.body[i]?.bind (·.stmtAt? place)

theorem stmtAt?_instrument (m : Template) (i : Nat) (place : List (Nat × Nat)) :
    m.instrument.stmtAt? i place = (m.stmtAt? i place).map (Stmt.mapLeaves Stmt.addGuards) := by
  show (Stmt.instrumentBody m.body)[i]?.bind _ = _
  rw [Stmt.instrumentBody_eq, Stmt.mapBody_eq, List.getElem?_map, stmtAt?]
  cases m.body[i]? with
  | none => rfl
  | some s => exact s.stmtAt?_mapLeaves Stmt.keepsLeaves_addGuards place

theorem instrument_instrument (m : Template) : m.instrument.instrument = m.instrument := by
  have hbody : Stmt.instrumentBody (Stmt.instrumentBody m.body) = Stmt.instrumentBody m.body := by
    rw [Stmt.instrumentBody_eq, Stmt.instrumentBody_eq,
      Stmt.mapBody_mapBody Stmt.keepsLeaves_addGuards, funext Stmt.addGuards_addGuards]
  rw [instrument, instrument, hbody]

theorem withoutGuards_instrument (m : Template) : m.instrument.withoutGuards = m.withoutGuards := by
  have hbody : Stmt.mapBody Stmt.dropGuards (Stmt.instrumentBody m.body)
      = Stmt.mapBody Stmt.dropGuards m.body := by
    rw [Stmt.instrumentBody_eq, Stmt.mapBody_mapBody Stmt.keepsLeaves_addGuards,
      funext Stmt.dropGuards_addGuards]
  rw [withoutGuards, withoutGuards, instrument, hbody]

/-- **Only `types` statements change.**  Guards that are there stay, and a second round puts in
nothing.  No `types` statement without guards is left at any depth.  Without any guards a template
and the template with its guards are the same.  Each `types` statement has become, in its place, the
same statement with its guards; any other statement is what it was, except for what stands inside of
it; and nothing stands in a place where nothing stood. -/
theorem instrument_changes_types_only (m : Template) :
    m.instrument.instrument = m.instrument ∧
    (∀ i place a, m.instrument.stmtAt? i place ≠ some (.types a)) ∧
    m.instrument.withoutGuards = m.withoutGuards ∧
    (∀ i place a, m.stmtAt? i place = some (.types a) →
      m.instrument.stmtAt? i place = some (.guarded a a.synthesize)) ∧
    (∀ i place s, m.stmtAt? i place = some s → (∀ a, s ≠ .types a) → ∃ s',
      m.instrument.stmtAt? i place = some s' ∧ s'.frame = s.frame ∧ (s.blocks = [] → s' = s)) ∧
    ∀ i place, m.stmtAt? i place = none → m.instrument.stmtAt? i place = none := by
  refine ⟨m.instrument_instrument, ?_, m.withoutGuards_instrument, ?_, ?_, ?_⟩
  · intro i place a h
    rw [stmtAt?_instrument, Option.map_eq_some_iff] at h
    obtain ⟨s, -, hs⟩ := h
    exact s.mapLeaves_addGuards_ne_types a hs
  · intro i place a h
    rw [stmtAt?_instrument, h]
    rfl
  · intro i place s h hs
    rw [stmtAt?_instrument, h]
    exact ⟨_, rfl, s.frame_mapLeaves_addGuards hs, s.mapLeaves_addGuards_of_leaf hs⟩
  · intro i place h
    rw [stmtAt?_instrument, h]
    rfl

/-- Contracts at the top level, in a macro in the `else` of a loop, and one that has a guard. -/
def nestedContracts : Template where
  name := "nested"
  body :=
    [.types ⟨[⟨⟨"title", .ofLine 1⟩, "string", false⟩], .ofLine 1⟩,
     .loop none ⟨"row", .ofLine 2⟩ (.name (.ofLine 2) "rows")
      [.guarded ⟨[⟨⟨"row", .ofLine 3⟩, "mixed", false⟩], .ofLine 3⟩ [⟨"row", .isSet⟩]]
      [.macroDecl ⟨"m", .ofLine 4⟩ []
        [.types ⟨[⟨⟨"x", .ofLine 5⟩, "?number", true⟩], .ofLine 5⟩] (.ofLine 4)]
      (.ofLine 2)]
  span := .ofLine 1

theorem instrument_changes_types_only_nestedContracts :
    nestedContracts.stmtAt? 1 [(1, 0), (0, 0)]
        = some (.types ⟨[⟨⟨"x", .ofLine 5⟩, "?number", true⟩], .ofLine 5⟩) ∧
      nestedContracts.instrument.stmtAt? 1 [(1, 0), (0, 0)]
        = some (.guarded ⟨[⟨⟨"x", .ofLine 5⟩, "?number", true⟩], .ofLine 5⟩
            [⟨"x", .hasType "?number"⟩]) ∧
      nestedContracts.stmtAt? 1 [(0, 0)]
        = some (.guarded ⟨[⟨⟨"row", .ofLine 3⟩, "mixed", false⟩], .ofLine 3⟩ [⟨"row", .isSet⟩]) ∧
      nestedContracts.instrument.stmtAt? 1 [(0, 0)]
        = some (.guarded ⟨[⟨⟨"row", .ofLine 3⟩, "mixed", false⟩], .ofLine 3⟩ [⟨"row", .isSet⟩]) ∧
      nestedContracts.stmtAt? 1 [(0, 1)] = none ∧
      nestedContracts.instrument.stmtAt? 1 [(0, 1)] = none := by
  obtain ⟨-, -, -, htypes, hother, hnone⟩ := instrument_changes_types_only nestedContracts
  obtain ⟨s', hs', -, hsame⟩ := hother 1 [(0, 0)] _ rfl nofun
  rw [hsame rfl] at hs'
  exact ⟨rfl, htypes _ _ _ rfl, rfl, hs', rfl, hnone _ _ rfl⟩

end Template

end TemplateContracts
