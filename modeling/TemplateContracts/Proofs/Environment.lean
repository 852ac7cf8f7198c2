import TemplateContracts.TypeEnv

/-!
# Environments as maps

What a `TypeEnv` answers is a `Scope`: a map from names to types.  This file says what the
operations of an environment do to the entries of each name, and from that what they do to the map.

* `Scope` : the variables in scope with their types, and the ways to extend such a map;
* `TypeEnv.Extends` : the environment after a stretch of a walk, compared with the one before it.
  For each name that the stretch declared for good there is one accumulated entry on top of the
  block entries from before; every other name has its old entries, and the outer frames are
  untouched;
* `TypeEnv.Extends.popAll_of_pushAll` : a stretch between the pushes of some names and their pops
  does to the environment what it did in between.

The last statement is why loops and lambdas can be read without a stack: an assignment inside a loop
takes the accumulated entry from below the block entry of the loop target, and the pop then takes
the block entry from the middle.
-/

namespace TemplateContracts

/-- The variables in scope, with their types. -/
abbrev Scope := String → Option TypeExpr

namespace Scope

/-- No variables. -/
def empty : Scope := fun _ => none

/-- The map with one more variable, or another type for it. -/
def bind (m : Scope) (name : String) (type : TypeExpr) : Scope :=
  fun n => if n = name then some type else m n

/-- The map with variables of type `mixed`. -/
def bindAll (m : Scope) (names : List String) : Scope :=
  fun n => if n ∈ names then some .mixed else m n

/-- The map with those of the variables that it lacks, of type `mixed`. -/
def bindNew (m : Scope) (names : List String) : Scope :=
  fun n => if n ∈ names then some ((m n).getD .mixed) else m n

/-- The types that `m'` gives to the names of a list, and the types of `m` for all others. -/
def takeFrom (m : Scope) (names : List String) (m' : Scope) : Scope :=
  fun n => if n ∈ names then m' n else m n

/-- The types of `d`, and those of `m` for the names that `d` lacks. -/
def atop (d m : Scope) : Scope := fun n => (d n).or (m n)

@[simp] theorem empty_atop (m : Scope) : empty.atop m = m := rfl

@[simp] theorem atop_empty (m : Scope) : m.atop empty = m := by
  funext n
  simp [atop, empty]

theorem atop_atop (e d m : Scope) : (e.atop d).atop m = e.atop (d.atop m) := by
  funext n
  simp [atop, Option.or_assoc]

theorem bind_eq_atop (m : Scope) (name : String) (type : TypeExpr) :
    m.bind name type = (empty.bind name type).atop m := by
  funext n
  by_cases h : n = name <;> simp [bind, atop, empty, h]

theorem bindAll_eq_atop (m : Scope) (names : List String) :
    m.bindAll names = (empty.bindAll names).atop m := by
  funext n
  by_cases h : n ∈ names <;> simp [bindAll, atop, empty, h]

theorem isSome_atop (d m : Scope) (n : String) :
    (d.atop m n).isSome = ((d n).isSome || (m n).isSome) := by
  rw [atop, Option.isSome_or]

theorem isSome_bindAll (m : Scope) (names : List String) (n : String) :
    (m.bindAll names n).isSome = (names.contains n || (m n).isSome) := by
  by_cases h : n ∈ names <;> simp [bindAll, h]

theorem isSome_bindNew (m : Scope) (names : List String) (n : String) :
    (m.bindNew names n).isSome = (names.contains n || (m n).isSome) := by
  by_cases h : n ∈ names <;> simp [bindNew, h]

end Scope

/-! ### The entries of a frame -/

/-- The entries that `push` made. -/
def blocks (es : List Entry) : List Entry := es.filter fun e => e.kind == .block

/-- The entries of a name that was declared for good with a type, or was not. -/
def declared : Option TypeExpr → List Entry → List Entry
  | none, es => es
  | some t, es => ⟨.accumulated, t⟩ :: blocks es

@[simp] theorem blocks_declared (d : Option TypeExpr) (es : List Entry) :
    blocks (declared d es) = blocks es := by
  cases d with
  | none => rfl
  | some t => simp [declared, blocks]

/-- Of two declarations for good the later one counts. -/
theorem declared_declared (e d : Option TypeExpr) (es : List Entry) :
    declared e (declared d es) = declared (e.or d) es := by
  cases e with
  | none => rfl
  | some t =>
    show ⟨.accumulated, t⟩ :: blocks (declared d es) = ⟨.accumulated, t⟩ :: blocks es
    rw [blocks_declared]

namespace Frame

theorem entries_setEntries (f : Frame) (name other : String) (es : List Entry) :
    (f.setEntries name es).entries other = if other = name then es else f.entries other := by
  cases es with
  | nil =>
    show ((f.bindings.erase name).get? other).getD [] = _
    rw [Assoc.get?_erase]
    by_cases h : other = name <;> simp [h, entries]
  | cons e es =>
    show ((f.bindings.set name (e :: es)).get? other).getD [] = _
    rw [Assoc.get?_set]
    by_cases h : other = name <;> simp [h, entries]

theorem entries_add (f : Frame) (name other : String) (t : TypeExpr) :
    (f.add name t).entries other =
      declared (Scope.empty.bind name t other) (f.entries other) := by
  rw [add, entries_setEntries]
  by_cases h : other = name
  · subst h; simp [Scope.bind, declared, blocks]
  · simp [Scope.bind, Scope.empty, declared, h]

theorem entries_push (f : Frame) (name other : String) (t : TypeExpr) :
    (f.push name t).entries other =
      if other = name then ⟨.block, t⟩ :: f.entries name else f.entries other := by
  rw [push, entries_setEntries]

theorem entries_pop (f : Frame) (name other : String) :
    (f.pop name).2.entries other =
      if other = name then ((takeBlock? (f.entries name)).map (·.2)).getD (f.entries name)
      else f.entries other := by
  unfold pop
  cases h : takeBlock? (f.entries name) with
  | none => by_cases ho : other = name <;> simp [ho]
  | some p =>
    obtain ⟨t, es⟩ := p
    show (f.setEntries name es).entries other = _
    rw [entries_setEntries]
    simp

/-- A pop after a push and a stretch of declarations leaves the declarations. -/
theorem takeBlock?_declared_block (d : Option TypeExpr) (t : TypeExpr) (es : List Entry) :
    takeBlock? (declared d (⟨.block, t⟩ :: es)) = some (t, declared d es) := by
  cases d with
  | none => simp [declared, takeBlock?]
  | some u =>
    have hb : blocks (⟨.block, t⟩ :: es) = ⟨.block, t⟩ :: blocks es := rfl
    simp [declared, hb, takeBlock?]

theorem lookup?_of_entries_eq_declared {f f' : Frame} {n : String} {d : Option TypeExpr}
    (h : f'.entries n = declared d (f.entries n)) : f'.lookup? n = d.or (f.lookup? n) := by
  rw [lookup?, h]
  cases d <;> rfl

end Frame

/-! ### Environments before and after a stretch of a walk -/

namespace TypeEnv

/-- `env'` is `env` with the names of `d` declared for good. -/
structure Extends (d : Scope) (env env' : TypeEnv) : Prop where
  outer_eq : env'.outer = env.outer
  entries_eq : ∀ n, env'.innermost.entries n = declared (d n) (env.innermost.entries n)

theorem Extends.refl (env : TypeEnv) : Extends .empty env env := ⟨rfl, fun _ => rfl⟩

theorem Extends.trans {d e : Scope} {env env₁ env₂ : TypeEnv} (h₁ : Extends d env env₁)
    (h₂ : Extends e env₁ env₂) : Extends (e.atop d) env env₂ := by
  refine ⟨h₂.outer_eq.trans h₁.outer_eq, fun n => ?_⟩
  rw [h₂.entries_eq, h₁.entries_eq, declared_declared]
  rfl

theorem Extends.lookup?_eq {d : Scope} {env env' : TypeEnv} (h : Extends d env env') :
    env'.lookup? = d.atop env.lookup? := by
  funext n
  exact Frame.lookup?_of_entries_eq_declared (h.entries_eq n)

theorem extends_add (env : TypeEnv) (name : String) (t : TypeExpr) :
    Extends (Scope.empty.bind name t) env (env.add name t) :=
  ⟨rfl, fun n => env.innermost.entries_add name n t⟩

theorem lookup?_push (env : TypeEnv) (name : String) (t : TypeExpr) :
    (env.push name t).lookup? = Scope.bind env.lookup? name t := by
  funext n
  show ((env.innermost.push name t).entries n).head?.map (·.type) = _
  rw [Frame.entries_push]
  by_cases h : n = name
  · simp [Scope.bind, h]
  · simp [Scope.bind, h, lookup?, Frame.lookup?]

theorem lookup?_pushAll (env : TypeEnv) (names : List String) :
    (env.pushAll names .mixed).lookup? = Scope.bindAll env.lookup? names := by
  induction names generalizing env with
  | nil => funext n; simp [pushAll, Scope.bindAll]
  | cons name rest ih =>
    show ((env.push name .mixed).pushAll rest .mixed).lookup? = _
    rw [ih, lookup?_push]
    funext n
    by_cases hr : n ∈ rest <;> by_cases hn : n = name <;>
      simp [Scope.bindAll, Scope.bind, hr, hn]

theorem outer_pushAll (env : TypeEnv) (names : List String) (t : TypeExpr) :
    (env.pushAll names t).outer = env.outer := by
  induction names generalizing env with
  | nil => rfl
  | cons name rest ih => exact ih (env.push name t)

/-- A stretch between a push and its pop. -/
theorem Extends.pop_of_push {d : Scope} {env env' : TypeEnv} {name : String} {t : TypeExpr}
    (h : Extends d (env.push name t) env') : Extends d env (env'.pop name).2 := by
  refine ⟨h.outer_eq, fun n => ?_⟩
  show (env'.innermost.pop name).2.entries n = _
  have hn : env'.innermost.entries n
      = declared (d n) ((env.innermost.push name t).entries n) := h.entries_eq n
  rw [Frame.entries_push] at hn
  rw [Frame.entries_pop]
  by_cases he : n = name
  · subst he
    rw [if_pos rfl] at hn
    rw [if_pos rfl, hn, Frame.takeBlock?_declared_block]
    rfl
  · rw [if_neg he] at hn
    rw [if_neg he, hn]

/-- A stretch between the pushes of names and their pops. -/
theorem Extends.popAll_of_pushAll {d : Scope} {names : List String} {t : TypeExpr} :
    ∀ {env env' : TypeEnv}, Extends d (env.pushAll names t) env' →
      Extends d env (env'.popAll names) := by
  induction names with
  | nil => exact fun h => h
  | cons name rest ih =>
    intro env env' h
    -- the name pushed first is popped last
    have hrest : Extends d (env.push name t) (env'.popAll rest) := ih h
    exact hrest.pop_of_push

/-- A stretch in a frame of its own leaves the environment as it was. -/
theorem Extends.popFrame_of_pushFrame {d : Scope} {env env' : TypeEnv} {kind : FrameKind}
    {names : List String} {t : TypeExpr}
    (h : Extends d ((env.pushFrame kind).pushAll names t) env') : env'.popFrame = env := by
  have houter : env'.outer = env.innermost :: env.outer := by
    rw [h.outer_eq, outer_pushAll]
    rfl
  rw [popFrame, houter]

end TypeEnv

end TemplateContracts
