import Mathlib.Data.List.Induction
import TemplateContracts.Proofs.Environment

/-!
# Living declarations

What a frame answers, from what was done to it: names were declared by `add` and by `push`, and
popped, any number of times and in any order.  A declaration by `add` lives until the next `add` of
its name, one by `push` until the pop that matches it, last in, first out.

* `FrameStep` : something that is done to a frame; a history is a list of these, in order of time;
* `Nested` : what may stand between a push and the pop that matches it;
* `LiveAt` : a step of a history declares a name, and no later step revokes it;
* `Stacks` : the living declarations of a name, the latest first.  `add` takes one out of the middle
  of this list, and `pop` one from below newer ones, so every step is followed on the whole list;
* `Frame.exists_stacks_apply` : one step keeps the entries of a name and its living declarations
  together;
* `Frame.exists_stacks` : **the entries of a name are its living declarations**;
* `Frame.lookup?_ofSteps`, `Frame.fst_pop_ofSteps` : what a frame answers, and what a pop gives.
-/

namespace TemplateContracts

/-! ### What is done to a frame -/

/-- Something that is done to a frame. -/
inductive FrameStep where
  | add (name : String) (type : TypeExpr)
  | push (name : String) (type : TypeExpr)
  | pop (name : String)
  deriving DecidableEq, Repr

namespace FrameStep

/-- The name that a step is about. -/
def name : FrameStep → String
  | add n _ | push n _ | pop n => n

/-- The entry by which a step declares a name. -/
def declares? (n : String) : FrameStep → Option Entry
  | add m t => if m = n then some ⟨.accumulated, t⟩ else none
  | push m t => if m = n then some ⟨.block, t⟩ else none
  | pop _ => none

theorem eq_push_of_declares? {s : FrameStep} {n : String} {t : TypeExpr}
    (h : s.declares? n = some ⟨.block, t⟩) : s = push n t := by
  cases s with
  | add m u =>
    rw [declares?] at h
    split at h <;> cases h
  | push m u =>
    rw [declares?] at h
    split at h
    · rename_i hm
      cases h
      rw [hm]
    · cases h
  | pop m => cases h

/-- Whether a step pushes a name. -/
def isPush (n : String) : FrameStep → Bool
  | push m _ => m == n
  | _ => false

/-- Whether a step pops a name. -/
def isPop (n : String) : FrameStep → Bool
  | pop m => m == n
  | _ => false

end FrameStep

/-- How often steps push a name. -/
def pushes (n : String) (h : List FrameStep) : Nat := h.countP (·.isPush n)

/-- How often steps pop a name. -/
def pops (n : String) (h : List FrameStep) : Nat := h.countP (·.isPop n)

@[simp] theorem pushes_nil (n : String) : pushes n [] = 0 := rfl

@[simp] theorem pops_nil (n : String) : pops n [] = 0 := rfl

theorem pushes_append (n : String) (h h' : List FrameStep) :
    pushes n (h ++ h') = pushes n h + pushes n h' := List.countP_append

theorem pops_append (n : String) (h h' : List FrameStep) :
    pops n (h ++ h') = pops n h + pops n h' := List.countP_append

@[simp] theorem pushes_push (n : String) (t : TypeExpr) (h : List FrameStep) :
    pushes n (.push n t :: h) = pushes n h + 1 := by
  simp [pushes, FrameStep.isPush]

@[simp] theorem pops_push (n m : String) (t : TypeExpr) (h : List FrameStep) :
    pops n (.push m t :: h) = pops n h := by
  simp [pops, FrameStep.isPop]

@[simp] theorem pushes_pop (n m : String) (h : List FrameStep) :
    pushes n (.pop m :: h) = pushes n h := by
  simp [pushes, FrameStep.isPush]

@[simp] theorem pops_pop (n : String) (h : List FrameStep) :
    pops n (.pop n :: h) = pops n h + 1 := by
  simp [pops, FrameStep.isPop]

/-! ### Pushes and the pops that match them -/

/-- What may stand between a push of a name and the pop that matches it: everything that is pushed
in between is popped in between. -/
structure Nested (n : String) (between : List FrameStep) : Prop where
  pops_eq : pops n between = pushes n between
  pops_le : ∀ early, early <+: between → pops n early ≤ pushes n early

/-- No step behind a push of the name pops it. -/
def Unpopped (n : String) (after : List FrameStep) : Prop :=
  ∀ between rest, after = between ++ .pop n :: rest → ¬ Nested n between

/-- Up to the pop that matches a push, pops never outnumber pushes. -/
theorem Unpopped.pops_le {n : String} {after : List FrameStep} (h : Unpopped n after) :
    ∀ early, early <+: after → ∀ e, e <+: early → pops n e ≤ pushes n e := by
  intro early
  induction early using List.reverseRecOn with
  | nil =>
    intro _ e he
    rw [List.prefix_nil.mp he]
    exact Nat.le_refl 0
  | append_singleton early s ih =>
    intro hp e he
    have hearly : early <+: after := (List.prefix_append early [s]).trans hp
    rcases List.prefix_concat_iff.mp he with rfl | he
    · have hle := ih hearly early (List.prefix_refl early)
      rw [pops_append, pushes_append]
      by_cases hs : s = .pop n
      · subst hs
        -- at equal counts this pop would match the push
        have hne : pops n early ≠ pushes n early := by
          intro heq
          obtain ⟨rest, hrest⟩ := hp
          rw [List.append_assoc] at hrest
          exact h early rest hrest.symm ⟨heq, ih hearly⟩
        rw [pops_pop, pops_nil, pushes_pop, pushes_nil]
        omega
      · have hpop : pops n [s] = 0 := by
          cases s with
          | pop m =>
            have hm : m ≠ n := fun hm => hs (by rw [hm])
            simp [pops, FrameStep.isPop, hm]
          | _ => rfl
        omega
    · exact ih hearly e he

theorem unpopped_iff {n : String} {after : List FrameStep} :
    Unpopped n after ↔ ∀ early, early <+: after → pops n early ≤ pushes n early := by
  constructor
  · intro h early hp
    exact h.pops_le early hp early (List.prefix_refl early)
  · rintro h between rest rfl hnested
    have hp : between ++ [FrameStep.pop n] <+: between ++ .pop n :: rest := ⟨rest, by simp⟩
    have hle := h _ hp
    rw [pops_append, pushes_append, hnested.pops_eq, pops_pop, pushes_pop, pops_nil,
      pushes_nil] at hle
    omega

/-- Where pushes outnumber pops, one of the pushes is not popped. -/
theorem exists_unpopped {n : String} (seg : List FrameStep) (hlt : pops n seg < pushes n seg) :
    ∃ before t rest, seg = before ++ .push n t :: rest ∧ Unpopped n rest := by
  induction hk : seg.length using Nat.strongRecOn generalizing seg with
  | ind k ih =>
    cases seg with
    | nil => simp at hlt
    | cons s seg =>
      -- a shorter stretch at the end in which pushes outnumber pops
      have shorter : ∀ early late, seg = early ++ late → pops n late < pushes n late →
          ∃ before t rest, s :: seg = before ++ .push n t :: rest ∧ Unpopped n rest := by
        intro early late hsplit hlate
        have hlen : late.length < k := by
          rw [← hk, hsplit, List.length_cons, List.length_append]
          omega
        obtain ⟨before, t, rest, rfl, hrest⟩ := ih _ hlen late hlate rfl
        exact ⟨s :: (early ++ before), t, rest, by simp [hsplit], hrest⟩
      by_cases hs : ∃ t, s = .push n t
      · obtain ⟨t, rfl⟩ := hs
        by_cases hseg : Unpopped n seg
        · exact ⟨[], t, seg, rfl, hseg⟩
        · rw [unpopped_iff] at hseg
          push Not at hseg
          obtain ⟨early, ⟨late, rfl⟩, hearly⟩ := hseg
          rw [pops_push, pushes_push, pops_append, pushes_append] at hlt
          exact shorter early late rfl (by omega)
      · have hpush : pushes n (s :: seg) = pushes n seg := by
          cases s with
          | push m t =>
            have hm : m ≠ n := fun hm => hs ⟨t, by rw [hm]⟩
            simp [pushes, FrameStep.isPush, hm]
          | _ => rfl
        have hpop : pops n seg ≤ pops n (s :: seg) := by
          rw [← List.singleton_append, pops_append]
          omega
        exact shorter [] seg rfl (by omega)

/-! ### Living declarations -/

/-- `Revokes n between e s` : the step `s` revokes the declaration of `n` by the entry `e`, when the
steps `between` stand between the two. -/
inductive Revokes (n : String) (between : List FrameStep) : Entry → FrameStep → Prop where
  | added {t u : TypeExpr} : Revokes n between ⟨.accumulated, t⟩ (.add n u)
  | popped {t : TypeExpr} : Nested n between → Revokes n between ⟨.block, t⟩ (.pop n)

/-- `LiveAt h n i e` : step `i` of the history `h` declares `n` by the entry `e`, and no later step
revokes the declaration. -/
structure LiveAt (h : List FrameStep) (n : String) (i : Nat) (e : Entry) : Prop where
  declared : (h[i]?.bind (·.declares? n)) = some e
  kept : ∀ between s rest, h.drop (i + 1) = between ++ s :: rest → ¬ Revokes n between e s

/-- Of the things that hold at a place in time, the latest. -/
def IsLatest {α : Type} (P : Nat → α → Prop) (a : α) : Prop :=
  ∃ i, P i a ∧ ∀ j b, P j b → j ≤ i

namespace LiveAt

variable {h : List FrameStep} {n : String} {i : Nat} {e : Entry} {t : TypeExpr}

theorem lt_length (hl : LiveAt h n i e) : i < h.length := by
  obtain ⟨s, hs, -⟩ := Option.bind_eq_some_iff.mp hl.declared
  exact (List.getElem?_eq_some_iff.mp hs).1

/-- A living push has not been popped. -/
theorem unpopped (hl : LiveAt h n i ⟨.block, t⟩) : Unpopped n (h.drop (i + 1)) :=
  fun between rest hsplit hnested => hl.kept between (.pop n) rest hsplit (.popped hnested)

/-- A push at a place, with what is done behind it. -/
theorem of_push (before : List FrameStep) (t : TypeExpr) {rest : List FrameStep}
    (hrest : Unpopped n rest) :
    LiveAt (before ++ .push n t :: rest) n before.length ⟨.block, t⟩ := by
  refine ⟨?_, ?_⟩
  · rw [List.getElem?_append_right (Nat.le_refl _), Nat.sub_self]
    simp [FrameStep.declares?]
  · intro between s late hsplit hrevokes
    have hdrop : (before ++ .push n t :: rest).drop (before.length + 1) = rest := by
      rw [← List.singleton_append, ← List.append_assoc]
      exact List.drop_left' (by simp)
    rw [hdrop] at hsplit
    cases hrevokes with
    | popped hnested => exact hrest between late hsplit hnested

/-- The step of a living push, in its place. -/
theorem drop_eq (hl : LiveAt h n i ⟨.block, t⟩) : h.drop i = .push n t :: h.drop (i + 1) := by
  obtain ⟨s, hs, he⟩ := Option.bind_eq_some_iff.mp hl.declared
  obtain ⟨hi, rfl⟩ := List.getElem?_eq_some_iff.mp hs
  rw [List.drop_eq_getElem_cons hi, FrameStep.eq_push_of_declares? he]

end LiveAt

/-- **One more step.**  What lives behind it is what it declares, and what lived before it and is
not revoked by it. -/
theorem liveAt_concat {h : List FrameStep} {s : FrameStep} {n : String} {i : Nat} {e : Entry} :
    LiveAt (h ++ [s]) n i e ↔
      (i = h.length ∧ s.declares? n = some e) ∨
        (LiveAt h n i e ∧ ¬ Revokes n (h.drop (i + 1)) e s) := by
  constructor
  · intro hl
    have hi := hl.lt_length
    rw [List.length_append, List.length_singleton] at hi
    by_cases heq : i = h.length
    · subst heq
      exact .inl ⟨rfl, by simpa using hl.declared⟩
    · have hlt : i < h.length := by omega
      have hdrop : (h ++ [s]).drop (i + 1) = h.drop (i + 1) ++ [s] :=
        List.drop_append_of_le_length hlt
      have hdeclared := hl.declared
      rw [List.getElem?_append_left hlt] at hdeclared
      refine .inr ⟨⟨hdeclared, ?_⟩, ?_⟩
      · intro between s' rest hsplit
        exact hl.kept between s' (rest ++ [s]) (by rw [hdrop, hsplit]; simp)
      · exact hl.kept (h.drop (i + 1)) s [] hdrop
  · rintro (⟨rfl, he⟩ | ⟨hl, hrevokes⟩)
    · refine ⟨by simpa using he, ?_⟩
      intro between s' rest hsplit
      simp at hsplit
    · have hlt := hl.lt_length
      have hdrop : (h ++ [s]).drop (i + 1) = h.drop (i + 1) ++ [s] :=
        List.drop_append_of_le_length hlt
      refine ⟨by rw [List.getElem?_append_left hlt]; exact hl.declared, ?_⟩
      intro between s' rest hsplit
      rw [hdrop] at hsplit
      -- the step at hand is the last one, or one of those before it
      rcases List.eq_nil_or_concat rest with rfl | ⟨rest, last, rfl⟩
      · obtain ⟨rfl, hs⟩ := List.append_inj' hsplit rfl
        cases hs
        exact hrevokes
      · rw [List.concat_eq_append, ← List.cons_append, ← List.append_assoc] at hsplit
        exact hl.kept between s' rest (List.append_inj' hsplit rfl).1

/-! ### The entries of a name -/

/-- The living declarations of a name with their places in the history, the latest first. -/
structure Stacks (h : List FrameStep) (n : String) (ms : List (Nat × Entry)) : Prop where
  sorted : ms.Pairwise fun a b => b.1 < a.1
  mem_iff : ∀ i e, (i, e) ∈ ms ↔ LiveAt h n i e

namespace Stacks

variable {h : List FrameStep} {n : String} {ms above below : List (Nat × Entry)} {i : Nat}
  {t : TypeExpr}

theorem nil (n : String) : Stacks [] n [] := by
  refine ⟨.nil, fun i e => ⟨fun hmem => absurd hmem List.not_mem_nil, fun hl => ?_⟩⟩
  exact absurd hl.lt_length (Nat.not_lt_zero i)

theorem fst_lt (hs : Stacks h n ms) {p : Nat × Entry} (hp : p ∈ ms) : p.1 < h.length :=
  ((hs.mem_iff p.1 p.2).mp hp).lt_length

/-- A step that declares nothing and revokes nothing. -/
theorem quiet (hs : Stacks h n ms) {s : FrameStep} (hnew : s.declares? n = none)
    (hrevokes : ∀ i e, LiveAt h n i e → ¬ Revokes n (h.drop (i + 1)) e s) :
    Stacks (h ++ [s]) n ms := by
  refine ⟨hs.sorted, fun i e => ?_⟩
  rw [hs.mem_iff, liveAt_concat, hnew]
  constructor
  · intro hl
    exact .inr ⟨hl, hrevokes i e hl⟩
  · rintro (⟨-, he⟩ | ⟨hl, -⟩)
    · cases he
    · exact hl

/-- A step about another name. -/
theorem other (hs : Stacks h n ms) {s : FrameStep} (hn : s.name ≠ n) : Stacks (h ++ [s]) n ms := by
  refine hs.quiet ?_ fun i e _ hrevokes => ?_
  · cases s with
    | add m t => exact if_neg hn
    | push m t => exact if_neg hn
    | pop m => rfl
  · cases hrevokes with
    | added => exact hn rfl
    | popped _ => exact hn rfl

/-- A step that declares the name, and the declarations that it does not revoke. -/
theorem declare (hs : Stacks h n ms) {s : FrameStep} {e : Entry} (hnew : s.declares? n = some e)
    {p : Nat × Entry → Bool}
    (hp : ∀ i e, LiveAt h n i e → (p (i, e) = true ↔ ¬ Revokes n (h.drop (i + 1)) e s)) :
    Stacks (h ++ [s]) n ((h.length, e) :: ms.filter p) := by
  refine ⟨List.pairwise_cons.mpr ⟨?_, hs.sorted.filter p⟩, fun i e' => ?_⟩
  · intro q hq
    exact hs.fst_lt (List.mem_filter.mp hq).1
  · rw [liveAt_concat, List.mem_cons, List.mem_filter, hs.mem_iff, hnew, Prod.mk.injEq,
      Option.some.injEq, eq_comm (a := e')]
    exact or_congr_right (and_congr_right fun hl => hp i e' hl)

theorem add (hs : Stacks h n ms) (t : TypeExpr) :
    Stacks (h ++ [.add n t]) n
      ((h.length, ⟨.accumulated, t⟩) :: ms.filter fun m => m.2.kind == .block) := by
  refine hs.declare (by simp [FrameStep.declares?]) ?_
  rintro i ⟨kind, u⟩ -
  cases kind with
  | accumulated => exact iff_of_false Bool.false_ne_true fun hrevokes => hrevokes .added
  | block => exact iff_of_true rfl nofun

theorem push (hs : Stacks h n ms) (t : TypeExpr) :
    Stacks (h ++ [.push n t]) n ((h.length, ⟨.block, t⟩) :: ms) := by
  have hnew : (FrameStep.push n t).declares? n = some ⟨.block, t⟩ := if_pos rfl
  have hall := hs.declare hnew (p := fun _ => true) fun i e _ => iff_of_true rfl nofun
  rwa [List.filter_eq_self.mpr fun _ _ => rfl] at hall

/-- Behind the latest of the living pushes, everything pushed has been popped. -/
theorem nested_of_top (hs : Stacks h n (above ++ (i, ⟨.block, t⟩) :: below))
    (habove : ∀ m ∈ above, m.2.kind = .accumulated) : Nested n (h.drop (i + 1)) := by
  have hl : LiveAt h n i ⟨.block, t⟩ := (hs.mem_iff _ _).mp (by simp)
  have hle := unpopped_iff.mp hl.unpopped
  refine ⟨?_, hle⟩
  by_contra hne
  have hlt : pops n (h.drop (i + 1)) < pushes n (h.drop (i + 1)) :=
    Nat.lt_of_le_of_ne (hle _ (List.prefix_refl _)) hne
  -- a push that is not popped would live, above the one at hand
  obtain ⟨before, u, rest, hsplit, hrest⟩ := exists_unpopped _ hlt
  have hpos : (h.take (i + 1) ++ before).length = i + 1 + before.length := by
    rw [List.length_append, List.length_take, Nat.min_eq_left hl.lt_length]
  have hlater : LiveAt h n (i + 1 + before.length) ⟨.block, u⟩ := by
    have hmade := LiveAt.of_push (h.take (i + 1) ++ before) u hrest
    rwa [hpos, List.append_assoc, ← hsplit, List.take_append_drop] at hmade
  have hmem := (hs.mem_iff _ _).mpr hlater
  have hsorted := List.pairwise_append.mp hs.sorted
  rcases List.mem_append.mp hmem with hmem | hmem
  · cases habove _ hmem
  · rcases List.mem_cons.mp hmem with heq | hmem
    · have hi : i + 1 + before.length = i := congrArg Prod.fst heq
      omega
    · have hi : i + 1 + before.length < i := List.rel_of_pairwise_cons hsorted.2.1 hmem
      omega

/-- Below it, something pushed later lives. -/
theorem not_nested_of_below (hs : Stacks h n (above ++ (i, ⟨.block, t⟩) :: below)) {j : Nat}
    {u : TypeExpr} (hj : (j, ⟨.block, u⟩) ∈ below) : ¬ Nested n (h.drop (j + 1)) := by
  have hl : LiveAt h n i ⟨.block, t⟩ := (hs.mem_iff _ _).mp (by simp)
  have hji : j < i := List.rel_of_pairwise_cons (List.pairwise_append.mp hs.sorted).2.1 hj
  intro hnested
  have hsplit : h.drop (j + 1)
      = (h.drop (j + 1)).take (i - (j + 1)) ++ .push n t :: h.drop (i + 1) := by
    rw [← hl.drop_eq]
    conv_lhs => rw [← List.take_append_drop (i - (j + 1)) (h.drop (j + 1))]
    rw [List.drop_drop, show j + 1 + (i - (j + 1)) = i by omega]
  have hmid := hnested.pops_le _ (List.take_prefix (i - (j + 1)) (h.drop (j + 1)))
  have hend := unpopped_iff.mp hl.unpopped _ (List.prefix_refl _)
  have heq := hnested.pops_eq
  rw [hsplit, pops_append, pushes_append, pops_push, pushes_push] at heq
  omega

/-- A pop takes the latest living push. -/
theorem pop (hs : Stacks h n (above ++ (i, ⟨.block, t⟩) :: below))
    (habove : ∀ m ∈ above, m.2.kind = .accumulated) :
    Stacks (h ++ [.pop n]) n (above ++ below) := by
  have hsorted := List.pairwise_append.mp hs.sorted
  have hbelow : ∀ m ∈ below, m.1 < i := fun m hm => List.rel_of_pairwise_cons hsorted.2.1 hm
  have habovei : ∀ m ∈ above, i < m.1 := fun m hm => hsorted.2.2 m hm _ List.mem_cons_self
  refine ⟨?_, fun j e => ?_⟩
  · refine List.pairwise_append.mpr ⟨hsorted.1, hsorted.2.1.tail, fun a ha b hb => ?_⟩
    exact Nat.lt_trans (hbelow b hb) (habovei a ha)
  · rw [liveAt_concat, ← hs.mem_iff]
    simp only [FrameStep.declares?, reduceCtorEq, and_false, false_or, List.mem_append,
      List.mem_cons]
    constructor
    · rintro (hmem | hmem)
      · refine ⟨.inl hmem, ?_⟩
        intro hrevokes
        cases hrevokes with
        | popped _ => cases habove _ hmem
      · refine ⟨.inr (.inr hmem), ?_⟩
        intro hrevokes
        cases hrevokes with
        | popped hnested => exact hs.not_nested_of_below hmem hnested
    · rintro ⟨hmem | heq | hmem, hrevokes⟩
      · exact .inl hmem
      · cases heq
        exact absurd (.popped (hs.nested_of_top habove)) hrevokes
      · exact .inr hmem

/-- A pop takes nothing where no push lives. -/
theorem pop_of_no_block (hs : Stacks h n ms) (hms : ∀ m ∈ ms, m.2.kind = .accumulated) :
    Stacks (h ++ [.pop n]) n ms := by
  refine hs.quiet rfl ?_
  intro i e hl hrevokes
  have hkind := hms _ ((hs.mem_iff i e).mpr hl)
  cases hrevokes with
  | popped _ => cases hkind

end Stacks

/-- In a list that is sorted by time, the latest first, the head is the latest. -/
theorem isLatest_iff_head? {P : Nat → Entry → Prop} {ms : List (Nat × Entry)}
    (hsorted : ms.Pairwise fun a b => b.1 < a.1) (hmem : ∀ i e, (i, e) ∈ ms ↔ P i e) (e : Entry) :
    IsLatest P e ↔ (ms.map Prod.snd).head? = some e := by
  constructor
  · rintro ⟨i, hi, hmax⟩
    have hie := (hmem i e).mpr hi
    cases ms with
    | nil => cases hie
    | cons m ms =>
      have hle := hmax m.1 m.2 ((hmem _ _).mp List.mem_cons_self)
      rcases List.mem_cons.mp hie with rfl | hie
      · rfl
      · have hlt : i < m.1 := List.rel_of_pairwise_cons hsorted hie
        omega
  · intro hhead
    cases ms with
    | nil => cases hhead
    | cons m ms =>
      cases hhead
      refine ⟨m.1, (hmem _ _).mp List.mem_cons_self, fun j b hb => ?_⟩
      rcases List.mem_cons.mp ((hmem j b).mpr hb) with rfl | hjb
      · exact Nat.le_refl j
      · exact Nat.le_of_lt (List.rel_of_pairwise_cons hsorted hjb)

namespace Frame

/-- A frame after a step. -/
def apply (f : Frame) : FrameStep → Frame
  | .add n t => f.add n t
  | .push n t => f.push n t
  | .pop n => (f.pop n).2

/-- A frame after steps from the beginning. -/
def ofSteps (kind : FrameKind) (h : List FrameStep) : Frame := h.foldl apply { kind }

theorem ofSteps_concat (kind : FrameKind) (h : List FrameStep) (s : FrameStep) :
    ofSteps kind (h ++ [s]) = (ofSteps kind h).apply s := by
  rw [ofSteps, List.foldl_append]
  rfl

/-- What a pop takes: the latest block entry, from below accumulated ones. -/
theorem takeBlock?_eq_some {es rest : List Entry} {t : TypeExpr}
    (h : takeBlock? es = some (t, rest)) :
    ∃ above below, es = above ++ ⟨.block, t⟩ :: below ∧ rest = above ++ below ∧
      ∀ e ∈ above, e.kind = .accumulated := by
  induction es generalizing rest with
  | nil => cases h
  | cons e es ih =>
    obtain ⟨kind, u⟩ := e
    cases kind with
    | block =>
      cases h
      exact ⟨[], es, rfl, rfl, nofun⟩
    | accumulated =>
      obtain ⟨⟨v, es'⟩, hes, heq⟩ := Option.map_eq_some_iff.mp h
      cases heq
      obtain ⟨above, below, rfl, rfl, habove⟩ := ih hes
      refine ⟨⟨.accumulated, u⟩ :: above, below, rfl, rfl, ?_⟩
      exact List.forall_mem_cons.mpr ⟨rfl, habove⟩

theorem takeBlock?_eq_none_iff {es : List Entry} :
    takeBlock? es = none ↔ ∀ e ∈ es, e.kind = .accumulated := by
  induction es with
  | nil => simp [takeBlock?]
  | cons e es ih =>
    obtain ⟨kind, u⟩ := e
    cases kind <;> simp [takeBlock?, ih]

/-- The type that a pop gives is that of the latest block entry. -/
theorem fst_takeBlock? (es : List Entry) :
    (takeBlock? es).map (·.1) = (blocks es).head?.map (·.type) := by
  induction es with
  | nil => rfl
  | cons e es ih =>
    obtain ⟨kind, u⟩ := e
    cases kind with
    | block => rfl
    | accumulated =>
      rw [takeBlock?, Option.map_map]
      exact ih

theorem entries_apply_of_ne (f : Frame) {s : FrameStep} {n : String} (hn : s.name ≠ n) :
    (f.apply s).entries n = f.entries n := by
  cases s with
  | add m t =>
    have hm : n ≠ m := Ne.symm hn
    show (f.add m t).entries n = _
    rw [entries_add, Scope.bind, if_neg hm]
    rfl
  | push m t =>
    have hm : n ≠ m := Ne.symm hn
    show (f.push m t).entries n = _
    rw [entries_push, if_neg hm]
  | pop m =>
    have hm : n ≠ m := Ne.symm hn
    show (f.pop m).2.entries n = _
    rw [entries_pop, if_neg hm]

section Step

variable {f : Frame} {h : List FrameStep} {n : String} {ms : List (Nat × Entry)}

theorem exists_stacks_add (hs : Stacks h n ms) (hf : f.entries n = ms.map Prod.snd)
    (t : TypeExpr) : ∃ ms', Stacks (h ++ [.add n t]) n ms' ∧
      (f.add n t).entries n = ms'.map Prod.snd := by
  refine ⟨_, hs.add t, ?_⟩
  rw [entries_add, hf]
  simp [Scope.bind, declared, blocks, List.filter_map, Function.comp_def]

theorem exists_stacks_push (hs : Stacks h n ms) (hf : f.entries n = ms.map Prod.snd)
    (t : TypeExpr) : ∃ ms', Stacks (h ++ [.push n t]) n ms' ∧
      (f.push n t).entries n = ms'.map Prod.snd := by
  refine ⟨_, hs.push t, ?_⟩
  rw [entries_push, if_pos rfl, hf]
  rfl

/-- A pop takes the latest living push out of the middle, or nothing. -/
theorem exists_stacks_pop (hs : Stacks h n ms) (hf : f.entries n = ms.map Prod.snd) :
    ∃ ms', Stacks (h ++ [.pop n]) n ms' ∧ (f.pop n).2.entries n = ms'.map Prod.snd := by
  rw [entries_pop, if_pos rfl, hf]
  cases htake : takeBlock? (ms.map Prod.snd) with
  | none =>
    have hnone := takeBlock?_eq_none_iff.mp htake
    refine ⟨ms, hs.pop_of_no_block fun m hm => ?_, rfl⟩
    exact hnone m.2 (List.mem_map_of_mem hm)
  | some p =>
    obtain ⟨t, rest⟩ := p
    obtain ⟨above, below, hes, rfl, habove⟩ := takeBlock?_eq_some htake
    obtain ⟨as, rest, rfl, rfl, hrest⟩ := List.map_eq_append_iff.mp hes
    obtain ⟨⟨i, e⟩, bs, rfl, hb, rfl⟩ := List.map_eq_cons_iff.mp hrest
    cases hb
    refine ⟨as ++ bs, hs.pop fun m hm => ?_, by simp⟩
    exact habove m.2 (List.mem_map_of_mem hm)

/-- One step keeps the entries of a name and its living declarations together. -/
theorem exists_stacks_apply (hs : Stacks h n ms) (hf : f.entries n = ms.map Prod.snd)
    (s : FrameStep) : ∃ ms', Stacks (h ++ [s]) n ms' ∧
      (f.apply s).entries n = ms'.map Prod.snd := by
  by_cases hn : s.name = n
  · subst hn
    cases s with
    | add m t => exact exists_stacks_add hs hf t
    | push m t => exact exists_stacks_push hs hf t
    | pop m => exact exists_stacks_pop hs hf
  · exact ⟨ms, hs.other hn, (f.entries_apply_of_ne hn).trans hf⟩

end Step

/-- **The entries of a name are its living declarations**, the latest first. -/
theorem exists_stacks (kind : FrameKind) (h : List FrameStep) (n : String) :
    ∃ ms, Stacks h n ms ∧ (ofSteps kind h).entries n = ms.map Prod.snd := by
  induction h using List.reverseRecOn with
  | nil => exact ⟨[], .nil n, rfl⟩
  | append_singleton h s ih =>
    obtain ⟨ms, hs, hentries⟩ := ih
    rw [ofSteps_concat]
    exact exists_stacks_apply hs hentries s

/-- The latest living declaration counts. -/
theorem lookup?_ofSteps (kind : FrameKind) (h : List FrameStep) (n : String) (t : TypeExpr) :
    (ofSteps kind h).lookup? n = some t ↔ ∃ e, e.type = t ∧ IsLatest (LiveAt h n) e := by
  obtain ⟨ms, hs, hentries⟩ := exists_stacks kind h n
  rw [lookup?, hentries, Option.map_eq_some_iff]
  refine exists_congr fun e => ?_
  rw [isLatest_iff_head? hs.sorted hs.mem_iff, and_comm]

/-- A pop gives the type of the latest living push. -/
theorem fst_pop_ofSteps (kind : FrameKind) (h : List FrameStep) (n : String) (t : TypeExpr) :
    ((ofSteps kind h).pop n).1 = some t ↔
      ∃ e, e.type = t ∧ IsLatest (fun i e => LiveAt h n i e ∧ e.kind = .block) e := by
  obtain ⟨ms, hs, hentries⟩ := exists_stacks kind h n
  have hpop : ((ofSteps kind h).pop n).1 = (takeBlock? (ms.map Prod.snd)).map (·.1) := by
    rw [pop, hentries]
    cases takeBlock? (ms.map Prod.snd) <;> rfl
  have hblocks : blocks (ms.map Prod.snd)
      = (ms.filter fun m => m.2.kind == .block).map Prod.snd := by
    rw [blocks, List.filter_map]
    rfl
  have hmem : ∀ i e, (i, e) ∈ ms.filter (fun m => m.2.kind == .block) ↔
      LiveAt h n i e ∧ e.kind = .block := by
    intro i e
    rw [List.mem_filter, hs.mem_iff, beq_iff_eq]
  rw [hpop, fst_takeBlock?, hblocks, Option.map_eq_some_iff]
  refine exists_congr fun e => ?_
  rw [isLatest_iff_head? (hs.sorted.filter _) hmem, and_comm]

/-- A pop where no push lives gives nothing and changes nothing. -/
theorem pop_ofSteps_of_no_push (kind : FrameKind) (h : List FrameStep) (n : String)
    (hnone : ∀ i e, LiveAt h n i e → e.kind ≠ .block) :
    (ofSteps kind h).pop n = (none, ofSteps kind h) := by
  obtain ⟨ms, hs, hentries⟩ := exists_stacks kind h n
  have htake : takeBlock? ((ofSteps kind h).entries n) = none := by
    rw [hentries, takeBlock?_eq_none_iff]
    intro e he
    obtain ⟨m, hm, rfl⟩ := List.mem_map.mp he
    have hne := hnone m.1 m.2 ((hs.mem_iff _ _).mp hm)
    cases hk : m.2.kind with
    | block => exact absurd hk hne
    | accumulated => rfl
  rw [pop, htake]

end Frame

end TemplateContracts
