import Mathlib.Data.List.Nodup
import TemplateContracts.Proofs.NumberText
import TemplateContracts.Value.OfJson

/-!
# Keys of arrays

A text that is the usual decimal form of an integer with sixty-four bits becomes that integer when
it is used as a key.  Whether it has the usual form and whether the integer is in range are two
tests; together they accept exactly what the integers of this range are written as.  So a key has
one text, no two texts have one key, and the members of a JSON object do not collide when the object
becomes an array.

* `Key.canonicalInt?_eq_some_iff` : the first test accepts the decimal forms of integers;
* `Key.ofString_eq_int_iff`, `Key.text_ofString` : both tests, and the way back;
* `Json.partAt?`, `Value.partAt?` : what stands at a place inside of a value;
* `Value.partAt?_ofJson` : a value has in each place what the JSON value has there;
* `Value.ofJson_lossless` : **array keys lose nothing**.
-/

namespace TemplateContracts

/-! ### Decimal digits -/

namespace Key

theorem digitChar_of_isDigit {c : Char} (h : c.isDigit = true) :
    c.toNat - '0'.toNat < 10 ∧ Nat.digitChar (c.toNat - '0'.toNat) = c := by
  have hzero : '0'.toNat = 48 := rfl
  have hrange : 48 ≤ c.toNat ∧ c.toNat ≤ 57 := by
    simpa [Char.isDigit, UInt32.le_iff_toNat_le] using h
  have hlt : c.toNat - '0'.toNat < 10 := by omega
  refine ⟨hlt, Char.toNat_inj.mp ?_⟩
  rw [Nat.toNat_digitChar_of_lt_ten hlt]
  omega

/-- Reading on behind a number appends digits to its decimal form. -/
theorem toDigits_foldl {n : Nat} (hn : 0 < n) {ds : List Char}
    (hds : ∀ c ∈ ds, c.isDigit = true) :
    Nat.toDigits 10 (ds.foldl (fun n c => 10 * n + (c.toNat - '0'.toNat)) n)
      = Nat.toDigits 10 n ++ ds := by
  induction ds generalizing n with
  | nil => rw [List.foldl_nil, List.append_nil]
  | cons c ds ih =>
    rw [List.forall_mem_cons] at hds
    obtain ⟨hlt, hchar⟩ := digitChar_of_isDigit hds.1
    have hstep := Nat.toDigits_append_toDigits (by decide : 1 < 10) hn hlt
    rw [Nat.toDigits_of_lt_base hlt, hchar] at hstep
    rw [List.foldl_cons, ih (by omega) hds.2, ← hstep, List.append_assoc, List.singleton_append]

theorem natOfDigits_toDigits (n : Nat) : natOfDigits (Nat.toDigits 10 n) = n :=
  Json.digitsValue_toDigits n

theorem isCanonicalNat_iff {ds : List Char} :
    isCanonicalNat ds = true ↔
      ds = ['0'] ∨ ∃ c cs, ds = c :: cs ∧ c ≠ '0' ∧ ∀ d ∈ ds, d.isDigit = true := by
  fun_cases isCanonicalNat ds with
  | case1 => simp
  | case2 => simp
  | case3 c cs h =>
    simp only [Bool.and_eq_true, bne_iff_ne, ne_eq, List.all_eq_true]
    constructor
    · intro hc
      exact .inr ⟨c, cs, rfl, hc⟩
    · rintro (heq | ⟨_, _, heq, hc⟩)
      · obtain ⟨rfl, rfl⟩ := List.cons.inj heq
        exact (h rfl rfl).elim
      · obtain ⟨rfl, rfl⟩ := List.cons.inj heq
        exact hc

theorem toDigits_natOfDigits {ds : List Char} (h : isCanonicalNat ds = true) :
    Nat.toDigits 10 (natOfDigits ds) = ds := by
  rcases isCanonicalNat_iff.mp h with rfl | ⟨c, cs, rfl, hc, hdigits⟩
  · rfl
  · rw [List.forall_mem_cons] at hdigits
    obtain ⟨hlt, hchar⟩ := digitChar_of_isDigit hdigits.1
    have hpos : 0 < c.toNat - '0'.toNat := by
      refine Nat.pos_of_ne_zero fun hzero => hc ?_
      rw [← hchar, hzero]
      rfl
    have hread := toDigits_foldl hpos hdigits.2
    rw [Nat.toDigits_of_lt_base hlt, hchar] at hread
    rw [natOfDigits, List.foldl_cons, Nat.mul_zero, Nat.zero_add, hread, List.singleton_append]

theorem isCanonicalNat_toDigits (n : Nat) : isCanonicalNat (Nat.toDigits 10 n) = true := by
  rw [isCanonicalNat_iff]
  rcases Nat.eq_zero_or_pos n with rfl | hn
  · exact .inl rfl
  · right
    cases hdigits : Nat.toDigits 10 n with
    | nil => exact absurd hdigits Nat.toDigits_ne_nil
    | cons c cs =>
      refine ⟨c, cs, rfl, fun hc => ?_, fun d hd => Json.isDigit_toDigits (hdigits ▸ hd)⟩
      exact Json.toDigits_ne_zero_cons hn cs (hc ▸ hdigits)

/-! ### Integers -/

theorem toList_toString (i : Int) :
    (toString i).toList
      = if i < 0 then '-' :: Nat.toDigits 10 i.natAbs else Nat.toDigits 10 i.natAbs := by
  rw [Int.toString_eq_repr, Int.repr_eq_if]
  by_cases hi : i < 0
  · rw [if_neg (by omega), if_pos hi, String.toList_append, Nat.repr_eq_ofList_toDigits,
      show (-i).toNat = i.natAbs by omega]
    exact congrArg (List.cons '-') String.toList_ofList
  · rw [if_pos (by omega), if_neg hi, Nat.repr_eq_ofList_toDigits, String.toList_ofList,
      show i.toNat = i.natAbs by omega]

theorem canonicalInt?_of_ne {ds : List Char} (h : ∀ cs, ds ≠ '-' :: cs) :
    canonicalInt? ds = if isCanonicalNat ds then some (natOfDigits ds : Int) else none := by
  unfold canonicalInt?
  split
  · exact absurd rfl (h _)
  · rfl

theorem canonicalInt?_toString (i : Int) : canonicalInt? (toString i).toList = some i := by
  rw [toList_toString]
  by_cases hi : i < 0
  · have hform : (isCanonicalNat (Nat.toDigits 10 i.natAbs) &&
        Nat.toDigits 10 i.natAbs != ['0']) = true := by
      rw [isCanonicalNat_toDigits, Bool.true_and, bne_iff_ne]
      exact Json.toDigits_ne_zero_cons (by omega) []
    rw [if_pos hi, canonicalInt?, if_pos hform, natOfDigits_toDigits]
    congr 1
    omega
  · have hdigits : ∀ cs, Nat.toDigits 10 i.natAbs ≠ '-' :: cs := by
      intro cs hcs
      have hminus : '-'.isDigit = true :=
        @Json.isDigit_toDigits i.natAbs '-' (hcs ▸ List.mem_cons_self)
      exact absurd hminus (by decide)
    rw [if_neg hi, canonicalInt?_of_ne hdigits, if_pos (isCanonicalNat_toDigits _),
      natOfDigits_toDigits]
    congr 1
    omega

/-- A text passes the test of its form exactly if it is the decimal form of an integer. -/
theorem canonicalInt?_eq_some_iff {cs : List Char} {i : Int} :
    canonicalInt? cs = some i ↔ cs = (toString i).toList := by
  refine ⟨fun h => ?_, fun h => h ▸ canonicalInt?_toString i⟩
  rw [toList_toString]
  by_cases hminus : ∃ ds, cs = '-' :: ds
  · obtain ⟨ds, rfl⟩ := hminus
    rw [canonicalInt?] at h
    split at h
    · next hform =>
      rw [Bool.and_eq_true, bne_iff_ne] at hform
      have hdigits := toDigits_natOfDigits hform.1
      -- only the digit zero spells zero, and it takes no sign
      have hzero : natOfDigits ds ≠ 0 := fun hzero => hform.2 (by rw [← hdigits, hzero]; rfl)
      obtain rfl := Option.some.inj h
      rw [if_pos (by omega), show (-(natOfDigits ds : Int)).natAbs = natOfDigits ds by omega,
        hdigits]
    · cases h
  · rw [canonicalInt?_of_ne fun ds heq => hminus ⟨ds, heq⟩] at h
    split at h
    · next hform =>
      obtain rfl := Option.some.inj h
      rw [if_neg (by omega), Int.natAbs_natCast, toDigits_natOfDigits hform]
    · cases h

/-! ### Keys and their texts -/

theorem toInt_ofInt {i : Int} (hlow : -9223372036854775808 ≤ i) (hhigh : i ≤ 9223372036854775807) :
    (Int64.ofInt i).toInt = i :=
  Int64.toInt_ofInt_of_le hlow (by omega)

/-- The key of a text: an integer in range and in its decimal form, or the text itself. -/
theorem ofString_cases (s : String) :
    (∃ k : Int64, s = toString k.toInt ∧ ofString s = .int k) ∨
      ofString s = .str s ∧
        ∀ i : Int, -9223372036854775808 ≤ i → i ≤ 9223372036854775807 → s ≠ toString i := by
  rw [ofString]
  cases hint : canonicalInt? s.toList with
  | none =>
    refine .inr ⟨rfl, fun i _ _ hs => ?_⟩
    rw [hs, canonicalInt?_toString] at hint
    cases hint
  | some i =>
    have hs : s = toString i := String.toList_inj.mp (canonicalInt?_eq_some_iff.mp hint)
    by_cases hrange : -9223372036854775808 ≤ i ∧ i ≤ 9223372036854775807
    · exact .inl ⟨.ofInt i, by rw [toInt_ofInt hrange.1 hrange.2, hs], if_pos hrange⟩
    · refine .inr ⟨if_neg hrange, fun j hlow hhigh hj => hrange ?_⟩
      rw [hj, canonicalInt?_toString] at hint
      cases hint
      exact ⟨hlow, hhigh⟩

theorem text_ofString (s : String) : (ofString s).text = s := by
  rcases ofString_cases s with ⟨k, hs, hkey⟩ | ⟨hkey, -⟩
  · rw [hkey, hs]
    rfl
  · rw [hkey]
    rfl

/-- No two texts have one key. -/
theorem ofString_injective : Function.Injective ofString :=
  Function.LeftInverse.injective text_ofString

/-- A text becomes an integer exactly if it is the decimal form of it, and the integer is in
range. -/
theorem ofString_eq_int_iff {s : String} {k : Int64} :
    ofString s = .int k ↔ s = toString k.toInt := by
  constructor
  · intro h
    rw [← text_ofString s, h]
    rfl
  · rintro rfl
    have hlow : -9223372036854775808 ≤ k.toInt := Int64.minValue_le_toInt k
    have hhigh : k.toInt ≤ 9223372036854775807 := Int64.toInt_le k
    rcases ofString_cases (toString k.toInt) with ⟨k', hk', hkey⟩ | ⟨-, hno⟩
    · have hsame := congrArg (fun s => canonicalInt? (String.toList s)) hk'
      simp only [canonicalInt?_toString, Option.some.injEq] at hsame
      rw [hkey, Int64.toInt_inj.mp hsame]
    · exact absurd rfl (hno k.toInt hlow hhigh)

end Key

/-! ### Places inside of a value -/

namespace Json

/-- What a value holds directly, in order: the items of an array or the members of an object. -/
def parts : Json → List Json
  | .array items => items
  | .object members => members.map Prod.snd
  | _ => []

/-- What stands at a place: a position in what a value holds, a position in what is held there, and
so on. -/
def partAt? : Json → List Nat → Option Json
  | j, [] => some j
  | j, i :: place => j.parts[i]?.bind fun part => partAt? part place

/-- Everything in a value, at any depth, has a property. -/
def Everywhere (P : Json → Prop) (j : Json) : Prop :=
  ∀ place part, j.partAt? place = some part → P part

/-- No object in a value, at any depth, repeats a name. -/
def DistinctNames : Json → Prop :=
  Everywhere fun part => ∀ members, part = .object members → (members.map Prod.fst).Nodup

/-- No array in a value, at any depth, is longer than its positions can be counted by keys. -/
def ShortArrays : Json → Prop :=
  Everywhere fun part => ∀ items, part = .array items → items.length ≤ 9223372036854775808

theorem everywhere_of_parts {P : Json → Prop} {j : Json} (hown : P j)
    (hparts : ∀ part ∈ j.parts, part.Everywhere P) : j.Everywhere P := by
  intro place part hplace
  cases place with
  | nil => exact Option.some.inj hplace ▸ hown
  | cons i place =>
    obtain ⟨inner, hinner, hplace⟩ := Option.bind_eq_some_iff.mp hplace
    exact hparts inner (List.mem_of_getElem? hinner) place part hplace

/-! ### Values that stand on their own -/

/-- Induction over a JSON value. -/
theorem treeInduction {P : Json → Prop} (null : P .null) (bool : ∀ b, P (.bool b))
    (number : ∀ n, P (.number n)) (string : ∀ s, P (.string s))
    (array : ∀ items, (∀ j ∈ items, P j) → P (.array items))
    (object : ∀ members, (∀ m ∈ members, P m.2) → P (.object members))
    (unreadable : P .unreadable) (j : Json) : P j :=
  @Json.rec P (fun items => ∀ j ∈ items, P j) (fun members => ∀ m ∈ members, P m.2)
    (fun m => P m.2) null bool number string array object unreadable
    (fun _ h => absurd h List.not_mem_nil)
    (fun _ _ ih ihs => List.forall_mem_cons.mpr ⟨ih, ihs⟩)
    (fun _ h => absurd h List.not_mem_nil)
    (fun _ _ ih ihs => List.forall_mem_cons.mpr ⟨ih, ihs⟩)
    (fun _ _ ih => ih)
    j

/-- Members in the order of their names, with distinct names inside of each. -/
structure WellSorted (members : List (String × Json)) : Prop where
  sorted : members.Pairwise fun m m' => m.1 < m'.1
  inside : ∀ m ∈ members, m.2.DistinctNames

theorem WellSorted.distinctNames {members : List (String × Json)} (h : WellSorted members) :
    (Json.object members).DistinctNames := by
  refine everywhere_of_parts ?_ ?_
  · rintro _ ⟨⟩
    rw [List.Nodup, List.pairwise_map]
    refine h.sorted.imp ?_
    intro m m' hlt heq
    rw [heq] at hlt
    exact String.lt_irrefl _ hlt
  · intro part hpart
    obtain ⟨m, hm, rfl⟩ := List.mem_map.mp hpart
    exact h.inside m hm

theorem mem_insertMember {key : String} {j : Json} {members : List (String × Json)}
    {m : String × Json} (h : m ∈ insertMember key j members) : m = (key, j) ∨ m ∈ members := by
  induction members with
  | nil => exact .inl (List.mem_singleton.mp h)
  | cons first rest ih =>
    obtain ⟨k, v⟩ := first
    rw [insertMember] at h
    split at h
    · exact (List.mem_cons.mp h).imp_right (List.mem_cons_of_mem _)
    · split at h
      · exact List.mem_cons.mp h
      · rcases List.mem_cons.mp h with rfl | h
        · exact .inr List.mem_cons_self
        · exact (ih h).imp_right (List.mem_cons_of_mem _)

theorem WellSorted.insertMember {members : List (String × Json)} (h : WellSorted members)
    (key : String) {j : Json} (hj : j.DistinctNames) :
    WellSorted (Json.insertMember key j members) := by
  refine ⟨?_, fun m hm => ?_⟩
  · have hsorted := h.sorted
    clear h hj
    induction members with
    | nil => exact List.pairwise_singleton _ _
    | cons first rest ih =>
      obtain ⟨k, v⟩ := first
      obtain ⟨hfirst, hrest⟩ := List.pairwise_cons.mp hsorted
      rw [Json.insertMember]
      split
      · next hk =>
        subst hk
        exact List.pairwise_cons.mpr ⟨hfirst, hrest⟩
      · next hne =>
        split
        · next hlt =>
          refine List.pairwise_cons.mpr ⟨fun m hm => ?_, hsorted⟩
          rcases List.mem_cons.mp hm with rfl | hm
          · exact hlt
          · exact String.lt_trans hlt (hfirst m hm)
        · next hnot =>
          have hgt : k < key := Std.lt_of_le_of_ne (String.not_lt.mp hnot) hne
          refine List.pairwise_cons.mpr ⟨fun m hm => ?_, ih hrest⟩
          rcases mem_insertMember hm with rfl | hm
          · exact hgt
          · exact hfirst m hm
  · rcases mem_insertMember hm with rfl | hm
    · exact hj
    · exact h.inside m hm

theorem wellSorted_of_canonicalMembers? {members sorted result : List (String × Json)}
    (hmembers : ∀ m ∈ members, ∀ j', m.2.canonical? = some j' → j'.DistinctNames)
    (hsorted : WellSorted sorted) (h : canonicalMembers? members sorted = some result) :
    WellSorted result := by
  induction members generalizing sorted with
  | nil =>
    rw [canonicalMembers?] at h
    exact Option.some.inj h ▸ hsorted
  | cons m rest ih =>
    obtain ⟨key, j⟩ := m
    rw [List.forall_mem_cons] at hmembers
    rw [canonicalMembers?] at h
    split at h
    · next j' hj => exact ih hmembers.2 (hsorted.insertMember key (hmembers.1 j' hj)) h
    · cases h

theorem distinctNames_of_canonicalItems? {items result : List Json}
    (hitems : ∀ j ∈ items, ∀ j', j.canonical? = some j' → j'.DistinctNames)
    (h : canonicalItems? items = some result) : ∀ j' ∈ result, j'.DistinctNames := by
  induction items generalizing result with
  | nil =>
    rw [canonicalItems?] at h
    cases h
    exact fun _ hj => nomatch hj
  | cons j rest ih =>
    rw [List.forall_mem_cons] at hitems
    rw [canonicalItems?] at h
    split at h
    · next j' rest' hj hrest =>
      cases h
      exact List.forall_mem_cons.mpr ⟨hitems.1 j' hj, ih hitems.2 hrest⟩
    · cases h

/-- A value that stands on its own repeats no name, whatever it was read from. -/
theorem distinctNames_of_canonical? {j j' : Json} (h : j.canonical? = some j') :
    j'.DistinctNames := by
  induction j using treeInduction generalizing j' with
  | array items ih =>
    rw [canonical?] at h
    obtain ⟨items', hitems, rfl⟩ := Option.map_eq_some_iff.mp h
    exact everywhere_of_parts nofun
      (distinctNames_of_canonicalItems? (fun j hj j' => ih j hj) hitems)
  | object members ih =>
    rw [canonical?] at h
    obtain ⟨members', hmembers, rfl⟩ := Option.map_eq_some_iff.mp h
    exact (wellSorted_of_canonicalMembers? (fun m hm j' => ih m hm) ⟨.nil, nofun⟩
      hmembers).distinctNames
  | unreadable => cases h
  | _ =>
    cases h
    exact everywhere_of_parts nofun nofun

end Json

namespace Value

/-- What a value holds directly, in order. -/
def parts (v : Value) : List Value := (v.entries?.getD []).map Prod.snd

/-- What stands at a place. -/
def partAt? : Value → List Nat → Option Value
  | v, [] => some v
  | v, i :: place => v.parts[i]?.bind fun part => partAt? part place

/-! ### From JSON -/

theorem itemsOfJson_eq (items : List Json) : itemsOfJson items = items.map ofJson := by
  induction items with
  | nil => rfl
  | cons j rest ih => rw [itemsOfJson, ih, List.map_cons]

theorem entriesOfJson_eq (members : List (String × Json)) :
    entriesOfJson members = members.map fun m => (Key.ofString m.1, ofJson m.2) := by
  induction members with
  | nil => rfl
  | cons m rest ih =>
    obtain ⟨name, j⟩ := m
    rw [entriesOfJson, ih, List.map_cons]

theorem map_snd_numbered (n : Nat) (items : List Value) :
    (numbered n items).map Prod.snd = items := by
  induction items generalizing n with
  | nil => rfl
  | cons v rest ih => rw [numbered, List.map_cons, ih]

theorem map_fst_numbered (n : Nat) (items : List Value) :
    (numbered n items).map Prod.fst
      = (List.range' n items.length).map fun k => Key.int (Int64.ofNat k) := by
  induction items generalizing n with
  | nil => rfl
  | cons v rest ih => rw [numbered, List.map_cons, ih, List.length_cons, List.range'_succ,
      List.map_cons]

/-- Positions that are keys do not collide. -/
theorem nodup_numbered {items : List Value} (h : items.length ≤ 9223372036854775808) :
    ((numbered 0 items).map Prod.fst).Nodup := by
  rw [map_fst_numbered]
  refine List.Nodup.map_on (fun i hi j hj hkeys => ?_) (List.nodup_range' 1)
  rw [List.mem_range'_1] at hi hj
  have hi' : (Int64.ofNat i).toInt = i := Int64.toInt_ofNat_of_lt (by omega)
  have hj' : (Int64.ofNat j).toInt = j := Int64.toInt_ofNat_of_lt (by omega)
  have hsame := congrArg Int64.toInt (Key.int.inj hkeys)
  omega

theorem parts_ofJson (j : Json) : (ofJson j).parts = j.parts.map ofJson := by
  cases j with
  | array items =>
    show (numbered 0 (itemsOfJson items)).map Prod.snd = items.map ofJson
    rw [map_snd_numbered, itemsOfJson_eq]
  | object members =>
    show (entriesOfJson members).map Prod.snd = (members.map Prod.snd).map ofJson
    rw [entriesOfJson_eq, List.map_map, List.map_map]
    rfl
  | number n =>
    obtain i | x := n
    · show (ofNumber (.int i)).parts = []
      rw [ofNumber]
      split <;> rfl
    · rfl
  | _ => rfl

/-- A value has in each place what the JSON value has there. -/
theorem partAt?_ofJson (j : Json) (place : List Nat) :
    (ofJson j).partAt? place = (j.partAt? place).map ofJson := by
  induction place generalizing j with
  | nil => rfl
  | cons i place ih =>
    rw [partAt?, Json.partAt?, parts_ofJson, List.getElem?_map]
    cases j.parts[i]? with
    | none => rfl
    | some part => exact ih part

/-- The arrays in a value come from the arrays and the objects of the JSON value, place by place. -/
theorem exists_of_partAt?_ofJson {j : Json} {place : List Nat} {entries : List (Key × Value)}
    (h : (ofJson j).partAt? place = some (.array entries)) :
    (∃ items, j.partAt? place = some (.array items) ∧
        entries = numbered 0 (items.map ofJson)) ∨
      ∃ members, j.partAt? place = some (.object members) ∧
        entries = members.map fun m => (Key.ofString m.1, ofJson m.2) := by
  rw [partAt?_ofJson, Option.map_eq_some_iff] at h
  obtain ⟨part, hpart, heq⟩ := h
  cases part with
  | array items =>
    refine .inl ⟨items, hpart, ?_⟩
    rw [← itemsOfJson_eq]
    exact (Value.array.inj heq).symm
  | object members =>
    refine .inr ⟨members, hpart, ?_⟩
    rw [← entriesOfJson_eq]
    exact (Value.array.inj heq).symm
  | number n =>
    obtain i | x := n
    · rw [ofJson, ofNumber] at heq
      split at heq <;> cases heq
    · cases heq
  | _ => cases heq

theorem nodup_keys_ofJson {j : Json} (hnames : j.DistinctNames) (harrays : j.ShortArrays)
    {place : List Nat} {entries : List (Key × Value)}
    (h : (ofJson j).partAt? place = some (.array entries)) : (entries.map Prod.fst).Nodup := by
  rcases exists_of_partAt?_ofJson h with ⟨items, hplace, rfl⟩ | ⟨members, hplace, rfl⟩
  · refine nodup_numbered ?_
    rw [List.length_map]
    exact harrays place _ hplace items rfl
  · have hmap := (hnames place _ hplace members rfl).map Key.ofString_injective
    rw [List.map_map] at hmap ⊢
    exact hmap

/-- **Array keys lose nothing.**  A text can be had back from its key.  It becomes an integer exactly
if it is the decimal form of one with sixty-four bits, and stays what it is otherwise; and the decimal
form of each of these integers becomes the integer.  So where a JSON value, at any depth, has an
array or an object, its runtime value has an array with as many entries in the same order, with the
positions or the names for keys, and the keys of such an array are distinct.  (A JSON value that
stands on its own repeats no name, and a list in memory is no longer than its positions can count.) -/
theorem ofJson_lossless :
    (∀ s, (Key.ofString s).text = s) ∧
    (∀ (s : String) (i : Int), (∃ k, Key.ofString s = .int k ∧ k.toInt = i) ↔
      s = toString i ∧ -9223372036854775808 ≤ i ∧ i ≤ 9223372036854775807) ∧
    (∀ s : String, (∀ i : Int, -9223372036854775808 ≤ i → i ≤ 9223372036854775807 →
      s ≠ toString i) → Key.ofString s = .str s) ∧
    (∀ k : Int64, Key.ofString (toString k.toInt) = .int k) ∧
    (∀ (j : Json) (place : List Nat) (items : List Json),
      j.partAt? place = some (.array items) → ∃ entries,
        (ofJson j).partAt? place = some (.array entries) ∧
        entries.map Prod.fst = (List.range items.length).map (fun n => .int (Int64.ofNat n)) ∧
        entries.map Prod.snd = items.map ofJson) ∧
    (∀ (j : Json) (place : List Nat) (members : List (String × Json)),
      j.partAt? place = some (.object members) → ∃ entries,
        (ofJson j).partAt? place = some (.array entries) ∧
        entries.map (fun e => e.1.text) = members.map Prod.fst ∧
        entries.map Prod.snd = members.map fun m => ofJson m.2) ∧
    (∀ j j' : Json, j.canonical? = some j' → j'.DistinctNames) ∧
    ∀ j : Json, j.DistinctNames → j.ShortArrays → ∀ (place : List Nat) (entries : List (Key × Value)),
      (ofJson j).partAt? place = some (.array entries) → (entries.map Prod.fst).Nodup := by
  refine ⟨Key.text_ofString, ?_, ?_, fun k => Key.ofString_eq_int_iff.mpr rfl, ?_, ?_,
    fun j j' => Json.distinctNames_of_canonical?,
    fun j hnames harrays place entries => nodup_keys_ofJson hnames harrays⟩
  · intro s i
    constructor
    · rintro ⟨k, hkey, rfl⟩
      exact ⟨Key.ofString_eq_int_iff.mp hkey, Int64.minValue_le_toInt k, Int64.toInt_le k⟩
    · rintro ⟨rfl, hlow, hhigh⟩
      have hi := Key.toInt_ofInt hlow hhigh
      exact ⟨.ofInt i, Key.ofString_eq_int_iff.mpr (by rw [hi]), hi⟩
  · intro s hno
    rcases Key.ofString_cases s with ⟨k, hs, -⟩ | ⟨hkey, -⟩
    · exact absurd hs (hno k.toInt (Int64.minValue_le_toInt k) (Int64.toInt_le k))
    · exact hkey
  · intro j place items hplace
    refine ⟨numbered 0 (items.map ofJson), ?_, ?_, map_snd_numbered 0 _⟩
    · rw [partAt?_ofJson, hplace, ← itemsOfJson_eq]
      rfl
    · rw [map_fst_numbered, List.length_map, List.range_eq_range']
  · intro j place members hplace
    refine ⟨members.map fun m => (Key.ofString m.1, ofJson m.2), ?_, ?_, ?_⟩
    · rw [partAt?_ofJson, hplace, ← entriesOfJson_eq]
      rfl
    · rw [List.map_map]
      exact List.map_congr_left fun m _ => Key.text_ofString m.1
    · rw [List.map_map]
      rfl

/-- An object as it was read, with a name twice and names that look like numbers. -/
def settings : Json :=
  .object [("a", .null), ("7", .array [.bool true, .null]), ("07", .null), ("a", .string "last")]

/-- The same object on its own. -/
def ownSettings : Json :=
  .object [("07", .null), ("7", .array [.bool true, .null]), ("a", .string "last")]

theorem shortArrays_ownSettings : ownSettings.ShortArrays := by
  have leaf : ∀ {j : Json}, (∀ items, j ≠ .array items) → j.parts = [] → j.ShortArrays := by
    intro j hno hparts
    refine Json.everywhere_of_parts (fun items heq => absurd heq (hno items)) ?_
    rw [hparts]
    exact nofun
  refine Json.everywhere_of_parts nofun (List.forall_mem_cons.mpr
    ⟨leaf nofun rfl, List.forall_mem_cons.mpr ⟨?_, List.forall_mem_singleton.mpr (leaf nofun rfl)⟩⟩)
  refine Json.everywhere_of_parts ?_ (List.forall_mem_cons.mpr
    ⟨leaf nofun rfl, List.forall_mem_singleton.mpr (leaf nofun rfl)⟩)
  rintro _ ⟨⟩
  decide

/-- The names `7` and `07` become two keys, and the greatest integer is one while the next is not. -/
theorem ofJson_lossless_settings :
    settings.canonical? = some ownSettings ∧ ownSettings.DistinctNames ∧ ownSettings.ShortArrays ∧
      ownSettings.partAt? [1] = some (.array [.bool true, .null]) ∧
      (∃ entries, (ofJson ownSettings).partAt? [1] = some (.array entries) ∧
        (entries.map Prod.fst).Nodup ∧ entries.map Prod.snd = [.bool true, .null]) ∧
      (∃ entries, (ofJson ownSettings).partAt? [] = some (.array entries) ∧
        (entries.map Prod.fst).Nodup ∧ entries.map (fun e => e.1.text) = ["07", "7", "a"]) ∧
      Key.ofString "9223372036854775807" = .int 9223372036854775807 ∧
      Key.ofString "9223372036854775808" = .str "9223372036854775808" ∧
      Key.ofString "07" = .str "07" := by
  obtain ⟨-, -, hother, hint, hitems, hmembers, hown, hnodup⟩ := ofJson_lossless
  have hread : settings.canonical? = some ownSettings := rfl
  have hnames := hown _ _ hread
  have hplace : ownSettings.partAt? [1] = some (.array [.bool true, .null]) := rfl
  obtain ⟨inner, hinner, -, hvalues⟩ := hitems _ _ _ hplace
  obtain ⟨entries, hentries, htexts, -⟩ := hmembers ownSettings [] _ rfl
  refine ⟨hread, hnames, shortArrays_ownSettings, hplace,
    ⟨inner, hinner, hnodup _ hnames shortArrays_ownSettings _ _ hinner, hvalues⟩,
    ⟨entries, hentries, hnodup _ hnames shortArrays_ownSettings _ _ hentries, htexts⟩, ?_, ?_, ?_⟩
  · exact hint 9223372036854775807
  · refine hother _ fun i _ hhigh heq => ?_
    have hform : some 9223372036854775808 = some i :=
      Key.canonicalInt?_eq_some_iff.mpr (congrArg String.toList heq)
    cases hform
    omega
  · refine hother _ fun i _ _ heq => ?_
    have hform : none = some i := Key.canonicalInt?_eq_some_iff.mpr (congrArg String.toList heq)
    cases hform

end Value

end TemplateContracts
