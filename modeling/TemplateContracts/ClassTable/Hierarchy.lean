import TemplateContracts.ClassTable.Basic

/-!
# The hierarchy of classes

`ClassTable.lineage` lists a type and what it inherits from, breadth first; `ClassTable.isSubtype`
asks whether a type is another one or inherits from it.  Both keep a queue of names and the keys
already seen.  A described type is expanded once, so the described types not yet seen, and then the
length of the queue, bound the search.
-/

namespace TemplateContracts.ClassTable

/-- How many described types are not among the seen keys. -/
def unseen (t : ClassTable) (seen : List String) : Nat := t.types.countP fun p => p.1 ∉ seen

private theorem countP_unseen_le (types : Assoc TypeInfo) (seen : List String) (key : String) :
    (types.countP fun p => p.1 ∉ key :: seen) ≤ types.countP fun p => p.1 ∉ seen :=
  List.countP_mono_left fun p _ h => by
    simp only [decide_eq_true_eq, List.mem_cons, not_or] at h ⊢
    exact h.2

/-- Seeing one more key leaves no more types unseen. -/
theorem unseen_cons_le (t : ClassTable) (seen : List String) (key : String) :
    t.unseen (key :: seen) ≤ t.unseen seen :=
  countP_unseen_le t.types seen key

private theorem countP_unseen_lt (types : Assoc TypeInfo) (seen : List String) (key : String)
    (hd : (types.get? key).isSome) (hs : key ∉ seen) :
    (types.countP fun p => p.1 ∉ key :: seen) < types.countP fun p => p.1 ∉ seen := by
  induction types with
  | nil => simp at hd
  | cons p rest ih =>
    obtain ⟨k, v⟩ := p
    have hle := countP_unseen_le rest seen key
    simp only [List.countP_cons]
    by_cases hk : k = key
    · subst hk
      simp only [List.mem_cons, true_or, not_true_eq_false, decide_false, hs, not_false_eq_true,
        decide_true, if_true, Bool.false_eq_true, if_false] at hle ⊢
      omega
    · have hrest := ih (by simpa [Assoc.get?, hk] using hd)
      have hm : (k ∉ key :: seen) ↔ k ∉ seen := by simp [hk]
      simp only [hm]
      omega

/-- Seeing the key of a described type for the first time leaves fewer types unseen. -/
theorem unseen_cons_lt (t : ClassTable) (seen : List String) (name : String) {info : TypeInfo}
    (hd : t.describe? name = some info) (hs : normalizeTypeName name ∉ seen) :
    t.unseen (normalizeTypeName name :: seen) < t.unseen seen :=
  countP_unseen_lt t.types seen _ (by rw [describe?] at hd; simp [hd]) hs

/-- The described types reached from a queue of names, breadth first, past the keys seen. -/
def reach (t : ClassTable) (queue seen : List String) : List TypeInfo :=
  match queue with
  | [] => []
  | name :: queue =>
    let key := normalizeTypeName name
    if _hs : key ∈ seen then t.reach queue seen
    else
      match _hd : t.describe? name with
      | some info => info :: t.reach (queue ++ info.ancestors) (key :: seen)
      | none => t.reach queue (key :: seen)
termination_by (t.unseen seen, queue.length)
decreasing_by
  · exact Prod.Lex.right _ (by simp)
  · exact Prod.Lex.left _ _ (t.unseen_cons_lt seen name _hd _hs)
  · rcases Nat.lt_or_eq_of_le (t.unseen_cons_le seen (normalizeTypeName name)) with h | h
    · exact Prod.Lex.left _ _ h
    · rw [h]; exact Prod.Lex.right _ (by simp)

/-- A type and all described types that it inherits from, breadth first. -/
def lineage (t : ClassTable) (name : String) : List TypeInfo := t.reach [name] []

/-- Whether a key is reached from a queue of names, past the keys seen. -/
def reaches (t : ClassTable) (target : String) (queue seen : List String) : Bool :=
  match queue with
  | [] => false
  | name :: queue =>
    let key := normalizeTypeName name
    if key = target then true
    else if _hs : key ∈ seen then t.reaches target queue seen
    else
      match _hd : t.describe? name with
      | some info => t.reaches target (queue ++ info.ancestors) (key :: seen)
      | none => t.reaches target queue (key :: seen)
termination_by (t.unseen seen, queue.length)
decreasing_by
  · exact Prod.Lex.right _ (by simp)
  · exact Prod.Lex.left _ _ (t.unseen_cons_lt seen name _hd _hs)
  · rcases Nat.lt_or_eq_of_le (t.unseen_cons_le seen (normalizeTypeName name)) with h | h
    · exact Prod.Lex.left _ _ h
    · rw [h]; exact Prod.Lex.right _ (by simp)

/-- Whether a type is another one, or inherits from it. -/
def isSubtype (t : ClassTable) (name target : String) : Bool :=
  t.reaches (normalizeTypeName target) [name] []

/-- The nearest property with a name. -/
def findProperty? (t : ClassTable) (className name : String) : Option Member :=
  (t.lineage className).findSome? fun info => info.properties.find? fun m => m.name == name

/-- The nearest method with a name, in any ASCII case. -/
def findMethod? (t : ClassTable) (className name : String) : Option Member :=
  (t.lineage className).findSome? fun info =>
    info.methods.find? fun m => lowercase m.name == lowercase name

/-- Whether a type or one it inherits from documents a virtual property. -/
def hasVirtualProperty (t : ClassTable) (className name : String) : Bool :=
  (t.lineage className).any fun info => info.virtualProperties.contains name

/-- Whether instances convert to text. -/
def isStringable (t : ClassTable) (className : String) : Bool :=
  t.isSubtype className "Stringable" || (t.findMethod? className "__toString").isSome

end TemplateContracts.ClassTable
