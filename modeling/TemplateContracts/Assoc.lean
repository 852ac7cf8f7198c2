/-!
# Association lists with string keys

A finite map kept as a list of pairs.  `set` replaces a value in place or appends a new pair, so a
key occurs at most once in a list built from `[]` by `set` and `erase`, and keys keep the order of
their first insertion.
-/

namespace TemplateContracts

/-- A finite map from names. -/
abbrev Assoc (α : Type) := List (String × α)

namespace Assoc

variable {α : Type}

/-- The value of a key. -/
def get? : Assoc α → String → Option α
  | [], _ => none
  | (k, v) :: rest, key => if k = key then some v else get? rest key

/-- Whether a key has a value. -/
def has (m : Assoc α) (key : String) : Bool := (m.get? key).isSome

/-- Gives a key a value, in place of the one it had. -/
def set : Assoc α → String → α → Assoc α
  | [], key, value => [(key, value)]
  | (k, v) :: rest, key, value =>
    if k = key then (k, value) :: rest else (k, v) :: set rest key value

/-- Drops a key. -/
def erase (m : Assoc α) (key : String) : Assoc α := m.filter fun p => p.1 != key

/-- Gives a key a value unless it has one. -/
def setIfNew (m : Assoc α) (key : String) (value : α) : Assoc α :=
  if m.has key then m else m.set key value

/-! ### What `set`, `erase` and `setIfNew` do to the view `get?` -/

@[simp] theorem get?_nil (key : String) : get? ([] : Assoc α) key = none := rfl

theorem get?_set_self (m : Assoc α) (key : String) (value : α) :
    (m.set key value).get? key = some value := by
  induction m with
  | nil => simp [set, get?]
  | cons p rest ih =>
    obtain ⟨k, v⟩ := p
    by_cases h : k = key <;> simp [set, get?, h, ih]

theorem get?_set_of_ne (m : Assoc α) {key other : String} (value : α) (h : other ≠ key) :
    (m.set key value).get? other = m.get? other := by
  induction m with
  | nil => simp [set, get?, Ne.symm h]
  | cons p rest ih =>
    obtain ⟨k, v⟩ := p
    by_cases hk : k = key
    · subst hk; simp [set, get?, Ne.symm h]
    · by_cases ho : k = other
      · subst ho; simp [set, get?, hk]
      · simp [set, get?, hk, ho, ih]

theorem get?_set (m : Assoc α) (key other : String) (value : α) :
    (m.set key value).get? other = if other = key then some value else m.get? other := by
  by_cases h : other = key
  · subst h; simp [get?_set_self]
  · simp [get?_set_of_ne m value h, h]

theorem get?_erase (m : Assoc α) (key other : String) :
    (m.erase key).get? other = if other = key then none else m.get? other := by
  induction m with
  | nil => simp [erase]
  | cons p rest ih =>
    obtain ⟨k, v⟩ := p
    by_cases hk : k = key
    · subst hk
      rw [show erase ((k, v) :: rest) k = erase rest k by simp [erase], ih]
      by_cases ho : other = k
      · simp [ho]
      · simp [get?, ho, Ne.symm ho]
    · rw [show erase ((k, v) :: rest) key = (k, v) :: erase rest key by simp [erase, hk]]
      by_cases ho : k = other
      · subst ho; simp [get?, hk]
      · simp [get?, ho, ih]

/-- The first value of a key stays. -/
theorem get?_setIfNew (m : Assoc α) (key other : String) (value : α) :
    (m.setIfNew key value).get? other =
      if other = key then some ((m.get? key).getD value) else m.get? other := by
  unfold setIfNew has
  cases h : m.get? key with
  | some v => by_cases ho : other = key <;> simp [ho, h]
  | none => simp [get?_set]

theorem has_setIfNew (m : Assoc α) (key other : String) (value : α) :
    (m.setIfNew key value).has other = (decide (other = key) || m.has other) := by
  rw [has, get?_setIfNew]
  by_cases h : other = key <;> simp [has, h]

theorem has_set (m : Assoc α) (key other : String) (value : α) :
    (m.set key value).has other = (decide (other = key) || m.has other) := by
  rw [has, get?_set]
  by_cases h : other = key <;> simp [has, h]

theorem length_set_of_has_eq_false {m : Assoc α} {key : String} (h : m.has key = false)
    (value : α) : (m.set key value).length = m.length + 1 := by
  induction m with
  | nil => rfl
  | cons p rest ih =>
    obtain ⟨k, v⟩ := p
    by_cases hk : k = key
    · simp [has, get?, hk] at h
    · rw [has, get?, if_neg hk] at h
      rw [set, if_neg hk, List.length_cons, List.length_cons, ih h]

/-- A key that has a value stands among the keys. -/
theorem mem_keys_of_get? {m : Assoc α} {key : String} {a : α} (h : m.get? key = some a) :
    key ∈ m.map Prod.fst := by
  induction m with
  | nil => simp at h
  | cons p rest ih =>
    obtain ⟨k, v⟩ := p
    by_cases hk : k = key
    · simp [hk]
    · exact List.mem_cons_of_mem _ (ih (by simpa [get?, hk] using h))

theorem mem_of_get? {m : Assoc α} {key : String} {a : α} (h : m.get? key = some a) :
    (key, a) ∈ m := by
  induction m with
  | nil => cases h
  | cons p rest ih =>
    obtain ⟨k, v⟩ := p
    by_cases hk : k = key
    · subst hk
      rw [get?, if_pos rfl] at h
      cases h
      exact List.mem_cons_self
    · rw [get?, if_neg hk] at h
      exact List.mem_cons_of_mem _ (ih h)

theorem mem_set {m : Assoc α} {key : String} {a : α} {p : String × α} (h : p ∈ m.set key a) :
    p = (key, a) ∨ p ∈ m := by
  induction m with
  | nil => exact .inl (List.mem_singleton.mp h)
  | cons q rest ih =>
    obtain ⟨k, v⟩ := q
    by_cases hk : k = key
    · subst hk
      rw [set, if_pos rfl] at h
      rcases List.mem_cons.mp h with rfl | h
      · exact .inl rfl
      · exact .inr (List.mem_cons_of_mem _ h)
    · rw [set, if_neg hk] at h
      rcases List.mem_cons.mp h with rfl | h
      · exact .inr List.mem_cons_self
      · exact (ih h).imp_right (List.mem_cons_of_mem _)

/-- The pairs in the order of their keys. -/
def sorted (m : Assoc α) : List (String × α) :=
  m.mergeSort fun p q => !(q.1 < p.1)

end Assoc

end TemplateContracts
