import Mathlib.Data.List.Forall2
import TemplateContracts.Proofs.LiveDeclarations

/-!
# Environments and their histories

An environment is built by any number of operations, in any order: nothing makes its user pop what
was pushed, or leave as many frames as were entered.  This file says what an environment answers
from the operations alone.

* `StoredWell` : what is stored under a name.  Every step keeps this;
* `EnvOp` : an operation on an environment;
* `EnvLog` : the frames of an environment, each with what was done while it was innermost;
* `TypeEnv.run_eq` : an environment is given by its log, frame by frame;
* `TypeEnv.run_follows_history` : **the latest living declaration in the innermost frame counts**,
  after every history.
-/

namespace TemplateContracts

/-! ### What is stored -/

/-- The entries stored under a name: there are some, and at most one of them is accumulated. -/
structure StoredWell (es : List Entry) : Prop where
  ne_nil : es ≠ []
  accumulated_le : (es.countP fun e => e.kind == .accumulated) ≤ 1

namespace Frame

theorem storedWell_setEntries {f : Frame} (hf : ∀ b ∈ f.bindings, StoredWell b.2) (n : String)
    {es : List Entry} (hes : (es.countP fun e => e.kind == .accumulated) ≤ 1) :
    ∀ b ∈ (f.setEntries n es).bindings, StoredWell b.2 := by
  intro b hb
  cases es with
  | nil => exact hf b (List.mem_filter.mp hb).1
  | cons e es =>
    rcases Assoc.mem_set hb with rfl | hb
    · exact ⟨List.cons_ne_nil e es, hes⟩
    · exact hf b hb

theorem countP_entries_le {f : Frame} (hf : ∀ b ∈ f.bindings, StoredWell b.2) (n : String) :
    ((f.entries n).countP fun e => e.kind == .accumulated) ≤ 1 := by
  unfold entries
  cases hget : f.bindings.get? n with
  | none => exact Nat.zero_le 1
  | some es => exact (hf _ (Assoc.mem_of_get? hget)).accumulated_le

/-- Every step keeps what is stored in order. -/
theorem storedWell_apply {f : Frame} (hf : ∀ b ∈ f.bindings, StoredWell b.2) (s : FrameStep) :
    ∀ b ∈ (f.apply s).bindings, StoredWell b.2 := by
  cases s with
  | add n t =>
    apply storedWell_setEntries hf
    have hnone : ((f.entries n).filter fun e => e.kind == .block).countP
        (fun e => e.kind == .accumulated) = 0 := by
      rw [List.countP_eq_zero]
      intro e he hacc
      have hblock := (List.mem_filter.mp he).2
      rw [beq_iff_eq] at hblock hacc
      rw [hblock] at hacc
      cases hacc
    refine Nat.le_of_eq ?_
    rw [List.countP_cons_of_pos rfl, hnone]
  | push n t =>
    apply storedWell_setEntries hf
    rw [List.countP_cons_of_neg Bool.false_ne_true]
    exact countP_entries_le hf n
  | pop n =>
    show ∀ b ∈ (f.pop n).2.bindings, StoredWell b.2
    unfold pop
    cases htake : takeBlock? (f.entries n) with
    | none => exact hf
    | some p =>
      obtain ⟨t, rest⟩ := p
      apply storedWell_setEntries hf
      obtain ⟨above, below, hes, rfl, -⟩ := takeBlock?_eq_some htake
      have hle := countP_entries_le hf n
      rw [hes, List.countP_append, List.countP_cons_of_neg Bool.false_ne_true] at hle
      rw [List.countP_append]
      exact hle

theorem storedWell_ofSteps (kind : FrameKind) (h : List FrameStep) :
    ∀ b ∈ (ofSteps kind h).bindings, StoredWell b.2 := by
  induction h using List.reverseRecOn with
  | nil => exact nofun
  | append_singleton h s ih =>
    rw [ofSteps_concat]
    exact storedWell_apply ih s

theorem kind_ofSteps (kind : FrameKind) (h : List FrameStep) : (ofSteps kind h).kind = kind := by
  induction h using List.reverseRecOn with
  | nil => rfl
  | append_singleton h s ih =>
    rw [ofSteps_concat]
    cases s with
    | add n t => exact ih
    | push n t => exact ih
    | pop n =>
      show ((ofSteps kind h).pop n).2.kind = kind
      unfold pop
      cases takeBlock? ((ofSteps kind h).entries n) <;> exact ih

end Frame

/-! ### Histories of environments -/

/-- An operation on an environment. -/
inductive EnvOp where
  | add (name : String) (type : TypeExpr)
  | addAll (bindings : List (String × TypeExpr))
  | push (name : String) (type : TypeExpr)
  | pop (name : String)
  | pushFrame (kind : FrameKind)
  | popFrame
  /-- Starts over with one empty frame. -/
  | reset

namespace TypeEnv

/-- An environment after an operation. -/
def apply (env : TypeEnv) : EnvOp → TypeEnv
  | .add n t => env.add n t
  | .addAll bs => env.addAll bs
  | .push n t => env.push n t
  | .pop n => (env.pop n).2
  | .pushFrame kind => env.pushFrame kind
  | .popFrame => env.popFrame
  | .reset => .empty

/-- An environment after operations in order. -/
def run (env : TypeEnv) (ops : List EnvOp) : TypeEnv := ops.foldl apply env

/-- All frames, the innermost first. -/
def frames (env : TypeEnv) : List Frame := env.innermost :: env.outer

end TypeEnv

/-- A frame and what was done to it, in order. -/
structure FrameLog where
  kind : FrameKind
  steps : List FrameStep := []

/-- The frames of an environment, each with what was done while it was innermost. -/
structure EnvLog where
  innermost : FrameLog := { kind := .template }
  outer : List FrameLog := []

namespace EnvLog

/-- Steps are done to the innermost frame. -/
def record (log : EnvLog) (steps : List FrameStep) : EnvLog :=
  { log with innermost := { log.innermost with steps := log.innermost.steps ++ steps } }

/-- A log after an operation. -/
def apply (log : EnvLog) : EnvOp → EnvLog
  | .add n t => log.record [.add n t]
  | .addAll bs => log.record (bs.map fun b => .add b.1 b.2)
  | .push n t => log.record [.push n t]
  | .pop n => log.record [.pop n]
  | .pushFrame kind => { innermost := { kind }, outer := log.innermost :: log.outer }
  | .popFrame =>
    match log.outer with
    | [] => log
    | f :: fs => { innermost := f, outer := fs }
  | .reset => {}

/-- The log of operations from the beginning. -/
def ofOps (ops : List EnvOp) : EnvLog := ops.foldl apply {}

/-- All frames, the innermost first. -/
def frames (log : EnvLog) : List FrameLog := log.innermost :: log.outer

end EnvLog

/-- The frame that steps make. -/
def FrameLog.frame (l : FrameLog) : Frame := .ofSteps l.kind l.steps

/-- The environment that a log stands for. -/
def EnvLog.env (log : EnvLog) : TypeEnv :=
  { innermost := log.innermost.frame, outer := log.outer.map FrameLog.frame }

theorem EnvLog.env_record (log : EnvLog) (steps : List FrameStep) :
    (log.record steps).env
      = { log.env with innermost := steps.foldl Frame.apply log.innermost.frame } := by
  simp only [env, record, FrameLog.frame, Frame.ofSteps, List.foldl_append]

namespace TypeEnv

theorem addAll_eq (env : TypeEnv) (bs : List (String × TypeExpr)) :
    env.addAll bs = { env with
      innermost := (bs.map fun b => FrameStep.add b.1 b.2).foldl Frame.apply env.innermost } := by
  induction bs generalizing env with
  | nil => rfl
  | cons b rest ih => exact ih (env.add b.1 b.2)

/-- An operation on the environment of a log. -/
theorem apply_env (log : EnvLog) (op : EnvOp) : log.env.apply op = (log.apply op).env := by
  cases op with
  | add n t => exact (log.env_record [.add n t]).symm
  | addAll bs =>
    show log.env.addAll bs = _
    rw [addAll_eq]
    exact (log.env_record _).symm
  | push n t => exact (log.env_record [.push n t]).symm
  | pop n => exact (log.env_record [.pop n]).symm
  | pushFrame kind => rfl
  | popFrame =>
    obtain ⟨inner, outer⟩ := log
    cases outer <;> rfl
  | reset => rfl

/-- **An environment is given by its log**: in each frame stands what was done to it while it was
innermost. -/
theorem run_eq (ops : List EnvOp) : TypeEnv.empty.run ops = (EnvLog.ofOps ops).env := by
  induction ops using List.reverseRecOn with
  | nil => rfl
  | append_singleton ops op ih =>
    rw [run, EnvLog.ofOps, List.foldl_append, List.foldl_append]
    show (TypeEnv.empty.run ops).apply op = ((EnvLog.ofOps ops).apply op).env
    rw [ih, apply_env]

/-! ### Frames that are not innermost -/

theorem addAll_outer (env : TypeEnv) (bs : List (String × TypeExpr)) :
    (env.addAll bs).outer = env.outer := by
  rw [addAll_eq]

/-- An operation leaves the frames below alone as long as they stay below. -/
theorem suffix_outer_apply {fs : List Frame} {env : TypeEnv} (h : fs <:+ env.outer) (op : EnvOp)
    (hdepth : fs.length < (env.apply op).depth) : fs <:+ (env.apply op).outer := by
  cases op with
  | add n t => exact h
  | addAll bs =>
    show fs <:+ (env.addAll bs).outer
    rw [addAll_outer]
    exact h
  | push n t => exact h
  | pop n => exact h
  | pushFrame kind => exact h.trans (List.suffix_cons _ _)
  | popFrame =>
    obtain ⟨inner, outer⟩ := env
    cases outer with
    | nil => exact h
    | cons f rest =>
      rcases List.suffix_cons_iff.mp h with rfl | h
      · -- these frames would be all that is left
        simp [apply, popFrame, depth] at hdepth
      · exact h
  | reset =>
    have hnil : fs = [] := by
      have hlt : fs.length < 1 := hdepth
      exact List.length_eq_zero_iff.mp (by omega)
    rw [hnil]
    exact List.nil_suffix

/-- The frames below the innermost one are untouched until one of them is innermost again. -/
theorem suffix_outer_run (env : TypeEnv) (ops : List EnvOp)
    (hdepth : ∀ early, early <+: ops → env.depth ≤ (env.run early).depth) :
    env.outer <:+ (env.run ops).outer := by
  induction ops using List.reverseRecOn with
  | nil => exact List.suffix_refl _
  | append_singleton ops op ih =>
    have hrun : env.run (ops ++ [op]) = (env.run ops).apply op := by
      rw [run, List.foldl_append]
      rfl
    have hlast := hdepth _ (List.prefix_refl _)
    rw [hrun] at hlast ⊢
    refine suffix_outer_apply (ih fun early hearly => ?_) op hlast
    exact hdepth early (hearly.trans (List.prefix_append ops [op]))

end TypeEnv

theorem EnvLog.kind_bottom (ops : List EnvOp) :
    (EnvLog.ofOps ops).frames.getLast?.map (·.kind) = some .template := by
  induction ops using List.reverseRecOn with
  | nil => rfl
  | append_singleton ops op ih =>
    rw [ofOps, List.foldl_append]
    show ((EnvLog.ofOps ops).apply op).frames.getLast?.map (·.kind) = _
    generalize EnvLog.ofOps ops = log at ih
    obtain ⟨inner, outer⟩ := log
    cases op with
    | popFrame =>
      cases outer with
      | nil => exact ih
      | cons f fs => exact ih
    | reset => rfl
    | pushFrame kind => exact ih
    | _ => cases outer <;> exact ih

/-- **The latest living declaration counts.**  For every history of operations from the empty
environment, balanced or not:

* each frame has the kind it was entered with, and answers a name with the type of the latest
  declaration that lives in what was done to the frame while it was innermost;
* so does the environment, for its innermost frame;
* a pop gives the type of the latest living push of the name; if none lives it gives nothing and
  leaves the environment as it is;
* the frames below the innermost one stay as they are until one of them is innermost again;
* there is a frame, the bottom one is that of the template, no name is stored without entries, and
  none with two accumulated ones. -/
theorem TypeEnv.run_follows_history (ops : List EnvOp) :
    let env := TypeEnv.empty.run ops
    let log := EnvLog.ofOps ops
    List.Forall₂ (fun f l => f.kind = l.kind ∧ ∀ n t, f.lookup? n = some t ↔
        ∃ e, e.type = t ∧ IsLatest (LiveAt l.steps n) e) env.frames log.frames ∧
      (∀ n t, env.lookup? n = some t ↔
        ∃ e, e.type = t ∧ IsLatest (LiveAt log.innermost.steps n) e) ∧
      (∀ n t, (env.pop n).1 = some t ↔
        ∃ e, e.type = t ∧
          IsLatest (fun i e => LiveAt log.innermost.steps n i e ∧ e.kind = .block) e) ∧
      (∀ n, (∀ i e, LiveAt log.innermost.steps n i e → e.kind ≠ .block) →
        env.pop n = (none, env)) ∧
      (∀ more, (∀ early, early <+: more → env.depth ≤ (env.run early).depth) →
        env.outer <:+ (env.run more).outer) ∧
      1 ≤ env.depth ∧ env.frames.getLast?.map (·.kind) = some .template ∧
      ∀ f ∈ env.frames, ∀ b ∈ f.bindings, StoredWell b.2 := by
  intro env log
  have henv : env = log.env := run_eq ops
  have hframes : env.frames = log.frames.map FrameLog.frame := by
    rw [henv]
    rfl
  have hinner : env.innermost = .ofSteps log.innermost.kind log.innermost.steps := by
    rw [henv]
    rfl
  refine ⟨?_, ?_, ?_, ?_, env.suffix_outer_run, Nat.le_add_left 1 _, ?_, ?_⟩
  · rw [hframes, List.forall₂_map_left_iff]
    refine List.forall₂_same.mpr fun l _ => ⟨Frame.kind_ofSteps l.kind l.steps, ?_⟩
    exact Frame.lookup?_ofSteps l.kind l.steps
  · intro n t
    rw [lookup?, hinner]
    exact Frame.lookup?_ofSteps _ _ n t
  · intro n t
    show (env.innermost.pop n).1 = some t ↔ _
    rw [hinner]
    exact Frame.fst_pop_ofSteps _ _ n t
  · intro n hnone
    have hpop := Frame.pop_ofSteps_of_no_push log.innermost.kind _ n hnone
    rw [← hinner] at hpop
    simp only [TypeEnv.pop, hpop]
  · rw [hframes, List.getLast?_map, Option.map_map]
    have hkind : (fun f : Frame => f.kind) ∘ FrameLog.frame = (·.kind) := by
      funext l
      exact Frame.kind_ofSteps l.kind l.steps
    rw [hkind]
    exact EnvLog.kind_bottom ops
  · rw [hframes]
    intro f hf
    obtain ⟨l, -, rfl⟩ := List.mem_map.mp hf
    exact Frame.storedWell_ofSteps l.kind l.steps

-- the pop takes the push from under a later accumulated declaration, which stays
example : (TypeEnv.empty.run
      [.add "x" (.basic .string), .push "x" .mixed, .add "x" (.basic .number),
        .pop "x"]).lookup? "x" = some (.basic .number) := by
  decide

end TemplateContracts
