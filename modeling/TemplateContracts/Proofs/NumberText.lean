import Mathlib.Data.List.TakeWhile
import TemplateContracts.Json.Decode
import TemplateContracts.Json.Parser
import TemplateContracts.Json.Printer

/-!
# Numbers in JSON text

A number has no closing mark: it ends where the next character does not belong to it.  So what a
scanner makes of a number is the same whatever follows, as long as that does not continue the
number.  Integers are read back as they are written.  Whether a double is depends on the rounding of
its digits; if its text alone is read back, so is its text in front of anything else.

* `Json.Stops` : a text that does not continue a number;
* `Json.Continues` : a scanner that leaves such a text as it is, whatever it is;
* `Json.Numeral` : what the text of a double looks like;
* `Binary64.ReadsBack` : the text of a double is decoded to the double;
* `Json.scanNumber_intText`, `Json.scanNumber_text` : the text of a number, with more behind it.
-/

namespace TemplateContracts

/-- The text of a double, on its own, is decoded to the double. -/
def Binary64.ReadsBack (x : Binary64) : Prop :=
  (Json.parse? (Json.double x).compact).bind Json.double? = some x

instance : DecidablePred Binary64.ReadsBack := fun _ => inferInstanceAs (Decidable (_ = _))

-- `1.2878042563860825`: the digits are rounded to a double, and so is their quotient by a power of
-- ten, which is then off in the last place
example : ¬ Binary64.ReadsBack ⟨0x3FF49AD8A2CD3EC4⟩ := by decide +kernel

namespace Json

/-! ### What may follow a number -/

/-- A text that does not continue a number. -/
def Stops (more : List Char) : Prop :=
  ∀ c ∈ more.head?, c.isDigit = false ∧ c ≠ '.' ∧ c ≠ 'e' ∧ c ≠ 'E'

theorem stops_nil : Stops [] := nofun

theorem stops_cons {c : Char} (h : c.isDigit = false ∧ c ≠ '.' ∧ c ≠ 'e' ∧ c ≠ 'E')
    (more : List Char) : Stops (c :: more) := by
  intro d hd
  cases hd
  exact h

/-- A scanner that leaves any text that stops numbers as it is. -/
def Continues {α : Type} (scan : List Char → Option (α × List Char)) : Prop :=
  ∀ {cs : List Char} {a : α} {rest more : List Char}, Stops more → scan cs = some (a, rest) →
    scan (cs ++ more) = some (a, rest ++ more)

theorem spanDigits_append {more : List Char} (hm : Stops more) (cs : List Char) :
    spanDigits (cs ++ more) = ((spanDigits cs).1, (spanDigits cs).2 ++ more) := by
  unfold spanDigits
  induction cs with
  | nil =>
    cases more with
    | nil => rfl
    | cons c more =>
      have hc : ¬c.isDigit = true := by rw [(hm c rfl).1]; exact Bool.false_ne_true
      show (List.takeWhile _ (c :: more), List.dropWhile _ (c :: more)) = ([], c :: more)
      rw [List.takeWhile_cons_of_neg hc, List.dropWhile_cons_of_neg hc]
  | cons c cs ih =>
    rw [Prod.mk.injEq] at ih ⊢
    by_cases hc : c.isDigit = true
    · rw [List.cons_append, List.takeWhile_cons_of_pos hc, List.dropWhile_cons_of_pos hc,
        List.takeWhile_cons_of_pos hc, List.dropWhile_cons_of_pos hc, ih.1, ih.2]
      exact ⟨rfl, rfl⟩
    · rw [List.cons_append, List.takeWhile_cons_of_neg hc, List.dropWhile_cons_of_neg hc,
        List.takeWhile_cons_of_neg hc, List.dropWhile_cons_of_neg hc]
      exact ⟨rfl, rfl⟩

/-! ### Scanners of the parts of a number

Each is given by what the leading digits are, so the cases are those of its `match` on them. -/

theorem continues_scanWhole : Continues scanWhole := by
  intro cs ds rest more hm h
  unfold scanWhole at h ⊢
  rw [spanDigits_append hm]
  generalize spanDigits cs = p at h ⊢
  obtain ⟨digits, behind⟩ := p
  split at h
  · cases h
  · cases h
  · next hnil hzero heq =>
    cases heq
    cases h
    split
    · next heq => cases heq; exact absurd rfl hnil
    · next heq => cases heq; exact absurd rfl (hzero _ _)
    · next heq => cases heq; rfl

theorem scanFraction_point (cs : List Char) :
    scanFraction ('.' :: cs) =
      match spanDigits cs with
      | ([], _) => none
      | (ds, rest) => some (ds, rest) := rfl

theorem scanFraction_of_ne {c : Char} (hc : c ≠ '.') (cs : List Char) :
    scanFraction (c :: cs) = some ([], c :: cs) := by
  unfold scanFraction
  split
  · next heq => cases heq; exact absurd rfl hc
  · rfl

theorem scanFraction_of_stops {more : List Char} (hm : Stops more) :
    scanFraction more = some ([], more) := by
  cases more with
  | nil => rfl
  | cons c more => exact scanFraction_of_ne (hm c rfl).2.1 more

theorem continues_scanFraction : Continues scanFraction := by
  intro cs ds rest more hm h
  cases cs with
  | nil =>
    cases h
    exact scanFraction_of_stops hm
  | cons c cs =>
    by_cases hc : c = '.'
    · subst hc
      rw [scanFraction_point] at h
      rw [List.cons_append, scanFraction_point, spanDigits_append hm]
      generalize spanDigits cs = p at h ⊢
      obtain ⟨digits, behind⟩ := p
      cases digits with
      | nil => cases h
      | cons d digits =>
        cases h
        rfl
    · rw [scanFraction_of_ne hc] at h
      cases h
      exact scanFraction_of_ne hc _

theorem continues_scanExponentDigits (negative : Bool) :
    Continues (scanExponentDigits negative) := by
  intro cs e rest more hm h
  unfold scanExponentDigits at h ⊢
  rw [spanDigits_append hm]
  generalize spanDigits cs = p at h ⊢
  obtain ⟨digits, behind⟩ := p
  cases digits with
  | nil => cases h
  | cons d digits =>
    cases h
    rfl

theorem scanExponent_cons (c : Char) (cs : List Char) :
    scanExponent (c :: cs) =
      if c = 'e' ∨ c = 'E' then
        match cs with
        | '+' :: cs => scanExponentDigits false cs
        | '-' :: cs => scanExponentDigits true cs
        | cs => scanExponentDigits false cs
      else some (none, c :: cs) := rfl

theorem scanExponent_of_stops {more : List Char} (hm : Stops more) :
    scanExponent more = some (none, more) := by
  cases more with
  | nil => rfl
  | cons c more =>
    have hc := (hm c rfl).2.2
    rw [scanExponent_cons, if_neg]
    rintro (he | hE)
    · exact hc.1 he
    · exact hc.2 hE

theorem continues_scanExponent : Continues scanExponent := by
  intro cs e rest more hm h
  cases cs with
  | nil =>
    cases h
    exact scanExponent_of_stops hm
  | cons c cs =>
    rw [scanExponent_cons] at h
    rw [List.cons_append, scanExponent_cons]
    by_cases hc : c = 'e' ∨ c = 'E'
    · rw [if_pos hc] at h ⊢
      cases cs with
      | nil => cases h
      | cons d cs =>
        split at h
        · next heq => cases heq; exact continues_scanExponentDigits false hm h
        · next heq => cases heq; exact continues_scanExponentDigits true hm h
        · next hplus hminus =>
          split
          · next heq => cases heq; exact absurd rfl (hplus cs)
          · next heq => cases heq; exact absurd rfl (hminus cs)
          · exact continues_scanExponentDigits false hm h
    · rw [if_neg hc] at h ⊢
      cases h
      rfl

theorem scanUnsigned_eq_some_iff {negative : Bool} {cs rest : List Char} {l : Literal} :
    scanUnsigned negative cs = some (l, rest) ↔
      ∃ whole cs₁ fraction cs₂ exponent, scanWhole cs = some (whole, cs₁) ∧
        scanFraction cs₁ = some (fraction, cs₂) ∧ scanExponent cs₂ = some (exponent, rest) ∧
        l = ⟨negative, whole, fraction, exponent⟩ := by
  constructor
  · intro h
    obtain ⟨⟨whole, cs₁⟩, hwhole, h⟩ := Option.bind_eq_some_iff.mp h
    obtain ⟨⟨fraction, cs₂⟩, hfraction, h⟩ := Option.bind_eq_some_iff.mp h
    obtain ⟨⟨exponent, cs₃⟩, hexponent, h⟩ := Option.bind_eq_some_iff.mp h
    cases h
    exact ⟨whole, cs₁, fraction, cs₂, exponent, hwhole, hfraction, hexponent, rfl⟩
  · rintro ⟨whole, cs₁, fraction, cs₂, exponent, hwhole, hfraction, hexponent, rfl⟩
    simp [scanUnsigned, hwhole, hfraction, hexponent]

theorem continues_scanUnsigned (negative : Bool) : Continues (scanUnsigned negative) := by
  intro cs l rest more hm h
  obtain ⟨whole, cs₁, fraction, cs₂, exponent, hwhole, hfraction, hexponent, rfl⟩ :=
    scanUnsigned_eq_some_iff.mp h
  exact scanUnsigned_eq_some_iff.mpr ⟨whole, _, fraction, _, exponent,
    continues_scanWhole hm hwhole, continues_scanFraction hm hfraction,
    continues_scanExponent hm hexponent, rfl⟩

theorem scanNumber_of_ne {c : Char} (hc : c ≠ '-') (cs : List Char) :
    scanNumber (c :: cs) = scanUnsigned false (c :: cs) := by
  unfold scanNumber
  split
  · next heq => cases heq; exact absurd rfl hc
  · rfl

theorem continues_scanNumber : Continues scanNumber := by
  intro cs l rest more hm h
  cases cs with
  | nil => cases h
  | cons c cs =>
    by_cases hc : c = '-'
    · subst hc
      exact continues_scanUnsigned true hm h
    · rw [scanNumber_of_ne hc] at h
      rw [List.cons_append, scanNumber_of_ne hc]
      exact continues_scanUnsigned false hm h

/-! ### Integers -/

theorem digitsValue_toDigits (n : Nat) : digitsValue (Nat.toDigits 10 n) = n := by
  have hfold := @Nat.ofDigitChars_eq_foldl 10 (Nat.toDigits 10 n) 0
  rw [Nat.ofDigitChars_ten_toDigits] at hfold
  exact hfold.symm

theorem isDigit_toDigits {n : Nat} {c : Char} (hc : c ∈ Nat.toDigits 10 n) : c.isDigit = true :=
  Nat.isDigit_of_mem_toDigits (by decide) (by decide) hc

/-- Only zero starts with the digit zero. -/
theorem toDigits_ne_zero_cons {n : Nat} (hn : 0 < n) (ds : List Char) :
    Nat.toDigits 10 n ≠ '0' :: ds := by
  induction n using Nat.strongRecOn generalizing ds with
  | ind n ih =>
    by_cases hlt : n < 10
    · rw [Nat.toDigits_of_lt_base hlt]
      intro h
      have hzero := Nat.digitChar_eq_zero.mp (List.head_eq_of_cons_eq h)
      omega
    · rw [Nat.toDigits_of_base_le (by decide) (by omega)]
      have hprevious := ih (n / 10) (by omega) (by omega)
      cases hdigits : Nat.toDigits 10 (n / 10) with
      | nil => exact absurd hdigits Nat.toDigits_ne_nil
      | cons c cs =>
        intro h
        have hc : c = '0' := List.head_eq_of_cons_eq h
        exact hprevious cs (by rw [hdigits, hc])

theorem spanDigits_toDigits (n : Nat) :
    spanDigits (Nat.toDigits 10 n) = (Nat.toDigits 10 n, []) := by
  have hall : ∀ c ∈ Nat.toDigits 10 n, c.isDigit = true := fun _ hc => isDigit_toDigits hc
  unfold spanDigits
  rw [List.takeWhile_eq_self_iff.mpr hall, List.dropWhile_eq_nil_iff.mpr hall]

theorem scanWhole_toDigits (n : Nat) :
    scanWhole (Nat.toDigits 10 n) = some (Nat.toDigits 10 n, []) := by
  unfold scanWhole
  rw [spanDigits_toDigits]
  split
  · next heq => exact absurd (congrArg Prod.fst heq) Nat.toDigits_ne_nil
  · next d ds rest heq =>
    have hdigits : Nat.toDigits 10 n = '0' :: d :: ds := congrArg Prod.fst heq
    rcases Nat.eq_zero_or_pos n with rfl | hn
    · cases hdigits
    · exact absurd hdigits (toDigits_ne_zero_cons hn (d :: ds))
  · next heq => cases heq; rfl

/-- Digits with more behind them. -/
theorem scanUnsigned_toDigits (negative : Bool) (n : Nat) {more : List Char} (hm : Stops more) :
    scanUnsigned negative (Nat.toDigits 10 n ++ more)
      = some (⟨negative, Nat.toDigits 10 n, [], none⟩, more) :=
  scanUnsigned_eq_some_iff.mpr ⟨_, _, _, _, _, continues_scanWhole hm (scanWhole_toDigits n),
    scanFraction_of_stops hm, scanExponent_of_stops hm, rfl⟩

/-- The literal of an integer. -/
def Literal.ofInt (i : Int) : Literal := ⟨i < 0, Nat.toDigits 10 i.natAbs, [], none⟩

theorem Literal.number?_ofInt {i : Int} (hlow : Int64.minValue.toInt ≤ i)
    (hhigh : i < UInt64.size) :
    (Literal.ofInt i).number? = some (.int i) := by
  have hmin : Int64.minValue.toInt = -9223372036854775808 := rfl
  have hsize : (UInt64.size : Int) = 18446744073709551616 := rfl
  have hfits : i.natAbs < UInt64.size := by omega
  simp only [number?, ofInt, digitsValue_toDigits, List.isEmpty_nil, Option.isNone_none,
    Bool.and_self, decide_eq_true hfits, if_true]
  by_cases hi : i < 0
  · have hrange : 0 < i.natAbs ∧ i.natAbs ≤ Int64.minValue.toInt.natAbs := by omega
    rw [decide_eq_true hi, Bool.not_true, if_neg Bool.false_ne_true, if_pos hrange]
    congr 2
    omega
  · rw [decide_eq_false hi, Bool.not_false, if_pos rfl]
    congr 2
    omega

/-- Whether a number can start with a character. -/
def startsNumber (c : Char) : Bool := c = '-' || c.isDigit

theorem startsNumber_of_isDigit {c : Char} (h : c.isDigit = true) : startsNumber c = true := by
  rw [startsNumber, h, Bool.or_true]

/-- The text of an integer, with more behind it. -/
theorem scanNumber_intText (i : Int) {more : List Char} (hm : Stops more) :
    scanNumber (intText i ++ more) = some (Literal.ofInt i, more) := by
  by_cases hi : i < 0
  · rw [intText, if_pos hi, Literal.ofInt, decide_eq_true hi]
    exact scanUnsigned_toDigits true _ hm
  · rw [intText, if_neg hi, Literal.ofInt, decide_eq_false hi, List.nil_append]
    cases hdigits : Nat.toDigits 10 i.natAbs with
    | nil => exact absurd hdigits Nat.toDigits_ne_nil
    | cons c cs =>
      have hc : c ≠ '-' := by
        rintro rfl
        have hdigit := isDigit_toDigits (hdigits ▸ List.mem_cons_self : '-' ∈ Nat.toDigits 10 _)
        exact absurd hdigit (by decide)
      rw [List.cons_append, scanNumber_of_ne hc, ← List.cons_append, ← hdigits]
      exact scanUnsigned_toDigits false _ hm

theorem intText_start (i : Int) : ∃ c cs, intText i = c :: cs ∧ startsNumber c = true := by
  by_cases hi : i < 0
  · exact ⟨'-', Nat.toDigits 10 i.natAbs, by rw [intText, if_pos hi]; rfl, rfl⟩
  · cases hdigits : Nat.toDigits 10 i.natAbs with
    | nil => exact absurd hdigits Nat.toDigits_ne_nil
    | cons c cs =>
      refine ⟨c, cs, by rw [intText, if_neg hi, hdigits]; rfl, startsNumber_of_isDigit ?_⟩
      exact @isDigit_toDigits i.natAbs c (by rw [hdigits]; exact List.mem_cons_self)

/-! ### The text of a double -/

theorem isSpace_of_isDigit {c : Char} (h : c.isDigit = true) : isSpace c = false := by
  cases hs : isSpace c with
  | false => rfl
  | true =>
    simp only [isSpace, Bool.or_eq_true, decide_eq_true_iff] at hs
    rcases hs with ((rfl | rfl) | rfl) | rfl <;> exact absurd h (by decide)

/-- No white space. -/
def NoSpace (cs : List Char) : Prop := ∀ c ∈ cs, isSpace c = false

theorem NoSpace.append {cs cs' : List Char} (h : NoSpace cs) (h' : NoSpace cs') :
    NoSpace (cs ++ cs') :=
  List.forall_mem_append.mpr ⟨h, h'⟩

theorem NoSpace.cons {c : Char} {cs : List Char} (hc : isSpace c = false) (h : NoSpace cs) :
    NoSpace (c :: cs) :=
  List.forall_mem_cons.mpr ⟨hc, h⟩

theorem noSpace_nil : NoSpace [] := nofun

theorem noSpace_digits {ds : List Char} (h : ∀ c ∈ ds, c.isDigit = true) : NoSpace ds :=
  fun c hc => isSpace_of_isDigit (h c hc)

theorem noSpace_zeros (n : Nat) : NoSpace (List.replicate n '0') := by
  intro c hc
  rw [List.eq_of_mem_replicate hc]
  rfl

/-- What the text of a double without its sign looks like: it starts with a digit, holds no white
space, and has a point or an exponent, which integers do not have. -/
structure Numeral (cs : List Char) : Prop where
  start : ∃ c tail, cs = c :: tail ∧ c.isDigit = true
  noSpace : NoSpace cs
  mark : ∃ c ∈ cs, startsNumber c = false

section Digits

variable {digits : List Char} (hne : digits ≠ []) (hall : ∀ c ∈ digits, c.isDigit = true)
include hne hall

theorem numeral_positional (e : Int) : Numeral (Binary64.positionalText true digits e) := by
  have hdigits := noSpace_digits hall
  obtain ⟨d, ds, rfl⟩ := List.exists_cons_of_ne_nil hne
  have hd : d.isDigit = true := hall d List.mem_cons_self
  unfold Binary64.positionalText
  dsimp only
  split
  · refine ⟨⟨'0', _, rfl, rfl⟩, ?_, '.', by simp, rfl⟩
    exact ((noSpace_nil.cons rfl).cons rfl |>.append (noSpace_zeros _)).append hdigits
  · split
    · refine ⟨⟨d, _, rfl, hd⟩, ?_, '.', by simp, rfl⟩
      exact (hdigits.append (noSpace_zeros _)).append ((noSpace_nil.cons rfl).cons rfl)
    · refine ⟨⟨d, _, rfl, hd⟩, ?_, '.', by simp, rfl⟩
      have hwhole : NoSpace ((d :: ds).take (e.toNat + 1)) :=
        fun c hc => hdigits c (List.mem_of_mem_take hc)
      have hplaces : NoSpace ((d :: ds).drop (e.toNat + 1)) :=
        fun c hc => hdigits c (List.mem_of_mem_drop hc)
      exact hwhole.append (hplaces.cons rfl)

theorem numeral_scientific (e : Int) : Numeral (Binary64.scientificText digits e) := by
  have hdigits := noSpace_digits hall
  obtain ⟨d, ds, rfl⟩ := List.exists_cons_of_ne_nil hne
  have hd : d.isDigit = true := hall d List.mem_cons_self
  have hsign : isSpace (if e < 0 then '-' else '+') = false := by split <;> rfl
  have hexponent : NoSpace (Nat.toDigits 10 e.natAbs) := noSpace_digits fun _ => isDigit_toDigits
  have htail := (hexponent.cons hsign).cons (c := 'e') rfl
  unfold Binary64.scientificText
  cases ds with
  | nil => exact ⟨⟨d, _, rfl, hd⟩, hdigits.append htail, 'e', by simp, rfl⟩
  | cons d' ds =>
    refine ⟨⟨d, _, rfl, hd⟩, ?_, 'e', by simp, rfl⟩
    have hplaces : NoSpace (d' :: ds) := fun c hc => hdigits c (List.mem_cons_of_mem d hc)
    exact ((hplaces.cons rfl).cons (isSpace_of_isDigit hd)).append htail

end Digits

theorem numeral_magnitude (u : Nat) : Numeral (layout.magnitude u) := by
  unfold Binary64.Layout.magnitude
  dsimp only [layout]
  split
  · exact numeral_positional Nat.toDigits_ne_nil (fun _ => isDigit_toDigits) _
  · exact numeral_scientific Nat.toDigits_ne_nil (fun _ => isDigit_toDigits) _

theorem text_eq {x : Binary64} (hx : x.isFinite = true) :
    layout.text x = (if x.isNegative then ['-'] else []) ++ layout.magnitude x.units := by
  simp only [Binary64.Layout.text, hx, if_true]

theorem text_start {x : Binary64} (hx : x.isFinite = true) :
    ∃ c cs, layout.text x = c :: cs ∧ startsNumber c = true := by
  obtain ⟨c, tail, hmagnitude, hc⟩ := (numeral_magnitude x.units).start
  rw [text_eq hx, hmagnitude]
  cases x.isNegative with
  | false => exact ⟨c, tail, rfl, startsNumber_of_isDigit hc⟩
  | true => exact ⟨'-', c :: tail, rfl, rfl⟩

theorem text_noSpace {x : Binary64} (hx : x.isFinite = true) : NoSpace (layout.text x) := by
  rw [text_eq hx]
  refine NoSpace.append ?_ (numeral_magnitude x.units).noSpace
  cases x.isNegative with
  | false => exact noSpace_nil
  | true => exact noSpace_nil.cons rfl

theorem text_mark {x : Binary64} (hx : x.isFinite = true) :
    ∃ c ∈ layout.text x, startsNumber c = false := by
  obtain ⟨c, hc, hmark⟩ := (numeral_magnitude x.units).mark
  rw [text_eq hx]
  exact ⟨c, List.mem_append_right _ hc, hmark⟩

/-! ### Doubles that read back -/

theorem scanWhole_split {cs ds rest : List Char} (h : scanWhole cs = some (ds, rest)) :
    cs = ds ++ rest ∧ ∀ c ∈ ds, c.isDigit = true := by
  have hspan : spanDigits cs = (ds, rest) := by
    unfold scanWhole at h
    generalize spanDigits cs = p at h ⊢
    split at h
    · cases h
    · cases h
    · cases h
      rfl
  cases hspan
  exact ⟨List.takeWhile_append_dropWhile.symm, List.all_eq_true.mp List.all_takeWhile⟩

theorem scanFraction_split {cs ds rest : List Char} (h : scanFraction cs = some (ds, rest)) :
    ∃ front, cs = front ++ rest ∧ (ds = [] → front = []) := by
  cases cs with
  | nil =>
    cases h
    exact ⟨[], rfl, fun _ => rfl⟩
  | cons c cs =>
    by_cases hc : c = '.'
    · subst hc
      rw [scanFraction_point] at h
      have hsplit : cs = (spanDigits cs).1 ++ (spanDigits cs).2 :=
        List.takeWhile_append_dropWhile.symm
      generalize spanDigits cs = p at h hsplit
      obtain ⟨digits, behind⟩ := p
      cases digits with
      | nil => cases h
      | cons d digits =>
        cases h
        exact ⟨'.' :: d :: digits, by rw [hsplit]; rfl, nofun⟩
    · rw [scanFraction_of_ne hc] at h
      cases h
      exact ⟨[], rfl, fun _ => rfl⟩

theorem scanExponentDigits_split {negative : Bool} {cs rest : List Char} {e : Option Int}
    (h : scanExponentDigits negative cs = some (e, rest)) :
    ∃ front, cs = front ++ rest ∧ e ≠ none := by
  unfold scanExponentDigits at h
  have hsplit : cs = (spanDigits cs).1 ++ (spanDigits cs).2 :=
    List.takeWhile_append_dropWhile.symm
  generalize spanDigits cs = p at h hsplit
  obtain ⟨digits, behind⟩ := p
  cases digits with
  | nil => cases h
  | cons d digits =>
    cases h
    exact ⟨d :: digits, hsplit, nofun⟩

theorem scanExponent_split {cs rest : List Char} {e : Option Int}
    (h : scanExponent cs = some (e, rest)) :
    ∃ front, cs = front ++ rest ∧ (e = none → front = []) := by
  cases cs with
  | nil =>
    cases h
    exact ⟨[], rfl, fun _ => rfl⟩
  | cons c cs =>
    rw [scanExponent_cons] at h
    by_cases hc : c = 'e' ∨ c = 'E'
    · rw [if_pos hc] at h
      split at h
      · obtain ⟨front, rfl, he⟩ := scanExponentDigits_split h
        exact ⟨c :: '+' :: front, rfl, fun hn => absurd hn he⟩
      · obtain ⟨front, rfl, he⟩ := scanExponentDigits_split h
        exact ⟨c :: '-' :: front, rfl, fun hn => absurd hn he⟩
      · obtain ⟨front, rfl, he⟩ := scanExponentDigits_split h
        exact ⟨c :: front, rfl, fun hn => absurd hn he⟩
    · rw [if_neg hc] at h
      cases h
      exact ⟨[], rfl, fun _ => rfl⟩

theorem scanUnsigned_split {negative : Bool} {cs rest : List Char} {l : Literal}
    (h : scanUnsigned negative cs = some (l, rest)) :
    ∃ front, cs = front ++ rest ∧
      (l.fraction = [] → l.exponent = none → ∀ c ∈ front, startsNumber c = true) := by
  obtain ⟨whole, cs₁, fraction, cs₂, exponent, hwhole, hfraction, hexponent, rfl⟩ :=
    scanUnsigned_eq_some_iff.mp h
  obtain ⟨rfl, hdigits⟩ := scanWhole_split hwhole
  obtain ⟨places, rfl, hplaces⟩ := scanFraction_split hfraction
  obtain ⟨power, rfl, hpower⟩ := scanExponent_split hexponent
  refine ⟨whole ++ places ++ power, by simp only [List.append_assoc], ?_⟩
  intro hf he c hc
  rw [hplaces hf, hpower he, List.append_nil, List.append_nil] at hc
  exact startsNumber_of_isDigit (hdigits c hc)

/-- What a number takes off a text.  Of one without point and exponent it is a sign and digits. -/
theorem scanNumber_split {cs rest : List Char} {l : Literal} (h : scanNumber cs = some (l, rest)) :
    ∃ front, cs = front ++ rest ∧
      (l.fraction = [] → l.exponent = none → ∀ c ∈ front, startsNumber c = true) := by
  cases cs with
  | nil => cases h
  | cons c cs =>
    by_cases hc : c = '-'
    · subst hc
      obtain ⟨front, rfl, hfront⟩ := scanUnsigned_split h
      exact ⟨'-' :: front, rfl, fun hf he => List.forall_mem_cons.mpr ⟨rfl, hfront hf he⟩⟩
    · rw [scanNumber_of_ne hc] at h
      exact scanUnsigned_split h

/-- A literal with a point or an exponent is no integer. -/
theorem Literal.number?_eq_float {l : Literal} (hl : l.fraction = [] → l.exponent = none → False)
    {n : Number} (h : l.number? = some n) : n = .float n.toDouble := by
  unfold number? at h
  dsimp only at h
  split at h
  · next hint =>
    simp only [Bool.and_eq_true, List.isEmpty_iff, Option.isNone_iff_eq_none] at hint
    exact (hl hint.1.1 hint.1.2).elim
  · obtain ⟨y, -, rfl⟩ := Option.map_eq_some_iff.mp h
    rfl

theorem skipSpace_cons {c : Char} (hc : isSpace c = false) (cs : List Char) :
    skipSpace (c :: cs) = c :: cs :=
  List.dropWhile_cons_of_neg (by rw [hc]; exact Bool.false_ne_true)

theorem isSpace_of_startsNumber {c : Char} (h : startsNumber c = true) : isSpace c = false := by
  rw [startsNumber, Bool.or_eq_true, decide_eq_true_iff] at h
  rcases h with rfl | h
  · rfl
  · exact isSpace_of_isDigit h

/-- A value that starts like a number is read as a number. -/
theorem parseValue_number {c : Char} (hc : startsNumber c = true) (fuel room : Nat)
    (cs : List Char) :
    parseValue (fuel + 1) room (c :: cs)
      = (scanNumber (c :: cs)).map fun p => (ofLiteral p.1, p.2) := by
  unfold parseValue
  rw [skipSpace_cons (isSpace_of_startsNumber hc)]
  split
  all_goals try { next heq => cases heq; exact absurd hc (by decide) }
  rfl

theorem eq_nil_of_skipSpace {cs : List Char} (h : NoSpace cs) (hend : (skipSpace cs).isEmpty) :
    cs = [] := by
  have hall := List.dropWhile_eq_nil_iff.mp (List.isEmpty_iff.mp hend)
  cases cs with
  | nil => rfl
  | cons c cs =>
    have hc := h c List.mem_cons_self
    rw [hall c List.mem_cons_self] at hc
    cases hc

theorem double?_ofLiteral {l : Literal} {x : Binary64} (h : (ofLiteral l).double? = some x) :
    ∃ n, l.number? = some n ∧ n.toDouble = x := by
  unfold ofLiteral at h
  cases hn : l.number? with
  | none =>
    rw [hn] at h
    cases h
  | some n =>
    rw [hn] at h
    exact ⟨n, rfl, Option.some.inj h⟩

/-- The whole text of a double that reads back is a number. -/
theorem scanNumber_of_readsBack {x : Binary64} (hx : x.isFinite = true) (h : x.ReadsBack) :
    ∃ l, scanNumber (layout.text x) = some (l, []) ∧ (ofLiteral l).double? = some x := by
  obtain ⟨c, cs, htext, hc⟩ := text_start hx
  have hcompact : (double x).compact = String.ofList (layout.text x) := by
    rw [double, if_pos hx]
    rfl
  obtain ⟨j, hj, hdecoded⟩ := Option.bind_eq_some_iff.mp h
  unfold parse? at hj
  dsimp only at hj
  rw [hcompact, String.toList_ofList, htext, parseValue_number hc, ← htext] at hj
  cases hscan : scanNumber (layout.text x) with
  | none =>
    rw [hscan] at hj
    cases hj
  | some p =>
    obtain ⟨l, rest⟩ := p
    rw [hscan] at hj
    dsimp only [Option.map_some] at hj
    split at hj
    · next hend =>
      cases hj
      obtain ⟨front, hsplit, -⟩ := scanNumber_split hscan
      have hrest : NoSpace rest := by
        intro d hd
        exact text_noSpace hx d (by rw [hsplit]; exact List.mem_append_right _ hd)
      exact ⟨l, by rw [eq_nil_of_skipSpace hrest hend], hdecoded⟩
    · cases hj

/-- A double that reads back does so with more behind it. -/
theorem scanNumber_text {x : Binary64} (hx : x.isFinite = true) (h : x.ReadsBack)
    {more : List Char} (hm : Stops more) :
    ∃ l, scanNumber (layout.text x ++ more) = some (l, more) ∧ l.number? = some (.float x) := by
  obtain ⟨l, hscan, hdecoded⟩ := scanNumber_of_readsBack hx h
  obtain ⟨n, hn, rfl⟩ := double?_ofLiteral hdecoded
  refine ⟨l, continues_scanNumber hm hscan, ?_⟩
  obtain ⟨front, hsplit, hfront⟩ := scanNumber_split hscan
  have hmarked : l.fraction = [] → l.exponent = none → False := by
    intro hf he
    obtain ⟨c, hc, hmark⟩ := text_mark hx
    rw [hsplit, List.append_nil] at hc
    rw [hfront hf he c hc] at hmark
    cases hmark
  rw [hn, ← Literal.number?_eq_float hmarked hn]

end Json

end TemplateContracts
