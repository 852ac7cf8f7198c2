import TemplateContracts.Proofs.TypeGrammar

/-!
# Reading what the grammar of declared types derives

The parser reads with one character of lookahead and takes the longest word that it finds.  That it
stops where a derivation ends therefore depends on what stands behind the text, so every statement
here is made in a context: the text of a derivation, and behind it something that may follow.

The first parts say once what each reader does at a text of known form; later proofs do not unfold a
reader that has such a lemma.

* `of_scanClass_eq_true` : a scan that ends well has read words with a backslash between them;
* `base_of_word` : what is read at a word, whichever way the word goes on;
* `Accepts` : a reader reads a derivation, gives its type and notes its deprecated spellings;
* `accepts_derivation` : **every derivation is read**, if the bound on nested brackets is not too
  low.
-/

namespace TemplateContracts

open TypeGrammar

/-- A derivation leads from one position to another: its text lies between them, and its deprecated
spellings are noted on the way. -/
structure TypeGrammar.Derivation.Spans {n : Nonterminal} (d : Derivation n) (p p' : TypeParser) :
    Prop where
  rest : p.rest = d.text ++ p'.rest
  deprecations : p'.deprecations = p.deprecations ++ d.spellings

namespace TypeParser

/-! ### Positions -/

/-- Characters of a kind, up to one that is not. -/
theorem takeWhile_append_stop {q : Char → Bool} {w r : List Char} (hw : ∀ c ∈ w, q c = true)
    (hr : ∀ c ∈ r.head?, q c = false) : (w ++ r).takeWhile q = w := by
  rw [List.takeWhile_append_of_pos hw]
  cases r with
  | nil => exact List.append_nil w
  | cons c r => rw [List.takeWhile_cons_of_neg (by simp [hr c rfl]), List.append_nil]

theorem dropWhile_append_stop {q : Char → Bool} {w r : List Char} (hw : ∀ c ∈ w, q c = true)
    (hr : ∀ c ∈ r.head?, q c = false) : (w ++ r).dropWhile q = r := by
  rw [List.dropWhile_append_of_pos hw]
  cases r with
  | nil => rfl
  | cons c r => rw [List.dropWhile_cons_of_neg (by simp [hr c rfl])]

theorem drop_length_takeWhile (q : Char → Bool) (cs : List Char) :
    cs.drop (cs.takeWhile q).length = cs.dropWhile q := by
  have hsplit := @List.drop_left _ (cs.takeWhile q) (cs.dropWhile q)
  rwa [List.takeWhile_append_dropWhile] at hsplit

@[simp] theorem rest_advance (p : TypeParser) (n : Nat) : (p.advance n).rest = p.rest.drop n := rfl

@[simp] theorem deprecations_advance (p : TypeParser) (n : Nat) :
    (p.advance n).deprecations = p.deprecations := rfl

@[simp] theorem rest_skipBlanks (p : TypeParser) :
    p.skipBlanks.rest = p.rest.dropWhile Text.isBlank :=
  drop_length_takeWhile Text.isBlank p.rest

theorem rest_skipBlanks_of_append {p : TypeParser} (b : Blanks) {r : List Char}
    (hp : p.rest = b.chars ++ r) (hr : NoBlank r) : p.skipBlanks.rest = r := by
  rw [rest_skipBlanks, hp, dropWhile_append_stop b.blank hr]

/-! ### Class names -/

theorem scanClass_good_append {w : List Char} (hw : ∀ c ∈ w, isWordChar c = true) (cs : List Char) :
    scanClass .good (w ++ cs) = ((scanClass .good cs).1 + w.length, (scanClass .good cs).2) := by
  induction w with
  | nil => rfl
  | cons c w ih =>
    have hc : isWordChar c = true := hw c List.mem_cons_self
    have hrest := ih fun c' hc' => hw c' (List.mem_cons_of_mem c hc')
    simp only [List.cons_append, scanClass, hc, if_true, Segment.next, hrest, List.length_cons]
    rfl

theorem scanClass_fresh_append (w : ClassWord) (cs : List Char) :
    scanClass .fresh (w.chars ++ cs)
      = ((scanClass .good cs).1 + w.chars.length, (scanClass .good cs).2) := by
  have hword := w.isWordChar_of_mem
  have hstart := w.start
  obtain ⟨c, w', hchars⟩ := List.exists_cons_of_ne_nil w.ne_nil
  rw [hchars] at hword hstart ⊢
  have hc : isWordChar c = true := hword c List.mem_cons_self
  have hnext : Segment.next .fresh c = .good := by simp [Segment.next, hstart c rfl]
  have hrest := scanClass_good_append (fun c' hc' => hword c' (List.mem_cons_of_mem c hc')) cs
  simp only [List.cons_append, scanClass, hc, if_true, hnext, hrest, List.length_cons]
  rfl

theorem scanClass_good_classText (more : List ClassWord) {r : List Char} (hr : Stops r) :
    scanClass .good (classText more ++ r) = ((classText more).length, true) := by
  induction more with
  | nil =>
    cases r with
    | nil => rfl
    | cons c r =>
      obtain ⟨hword, hslash, -⟩ := hr c rfl
      show scanClass .good (c :: r) = (0, true)
      simp [scanClass, hword, hslash]
  | cons w more ih =>
    have hslash : isWordChar '\\' = false := by decide
    have htext : classText (w :: more) = '\\' :: (w.chars ++ classText more) := rfl
    have hfresh := scanClass_fresh_append w (classText more ++ r)
    rw [ih, ← List.append_assoc] at hfresh
    rw [htext, List.cons_append, scanClass, hfresh]
    simp [hslash, Nat.add_comm]

/-- A well-formed scan: the rest of a segment, more segments, and what does not belong to them. -/
theorem of_scanClass_eq_true {s : Segment} {cs : List Char} {n : Nat}
    (h : scanClass s cs = (n, true)) :
    s ≠ .bad ∧ ∃ w more r, cs = w ++ classText more ++ r ∧ n = (w ++ classText more).length ∧
      (∀ c ∈ w, isWordChar c = true) ∧
      (s = .fresh → w ≠ [] ∧ ∀ c ∈ w.head?, c.isDigit = false) := by
  fun_induction scanClass s cs generalizing n with
  | case1 s =>
    obtain ⟨rfl, rfl⟩ : 0 = n ∧ s = .good := by simpa using h
    exact ⟨by decide, [], [], [], rfl, rfl, by simp, by simp⟩
  | case2 s c cs hc m ok heq ih =>
    obtain ⟨rfl, rfl⟩ : m + 1 = n ∧ ok = true := by simpa using h
    obtain ⟨hgood, w, more, r, hcs, hlen, hword, -⟩ := ih heq
    refine ⟨?_, c :: w, more, r, by rw [hcs]; rfl, by rw [hlen]; rfl, ?_, ?_⟩
    · rintro rfl
      exact hgood rfl
    · exact List.forall_mem_cons.mpr ⟨hc, hword⟩
    · rintro rfl
      refine ⟨List.cons_ne_nil c w, fun c' hc' => ?_⟩
      obtain rfl : c = c' := by simpa using hc'
      rw [← Bool.not_eq_true]
      intro hdigit
      exact hgood (by simp [Segment.next, hdigit])
  | case3 s c cs hc hslash m ok heq ih =>
    obtain ⟨rfl, rfl⟩ : m + 1 = n ∧ ok = true := by simpa using h
    obtain ⟨-, w, more, r, hcs, hlen, hword, hfresh⟩ := ih heq
    obtain ⟨hne, hstart⟩ := hfresh rfl
    obtain ⟨rfl, rfl⟩ := hslash
    let segment : ClassWord := ⟨w, hne, fun c hc => isWordChar_iff.mp (hword c hc), hstart⟩
    exact ⟨by decide, [], segment :: more, r, by rw [hcs]; rfl, by rw [hlen]; rfl, by simp,
      by simp⟩
  | case4 s c cs hc hslash =>
    obtain ⟨rfl, rfl⟩ : 0 = n ∧ s = .good := by simpa using h
    exact ⟨by decide, [], [], c :: cs, rfl, rfl, by simp, by simp⟩

/-! ### Words and brackets -/

theorem unexpected_ne_ok (p p' : TypeParser) (expected : String) (t : TypeExpr) :
    p.unexpected expected ≠ (.ok t, p') := by
  unfold unexpected
  split <;> simp

theorem ofWord_keyword (b : BasicType) (p : TypeParser) :
    ofWord b.keyword p = (.ok (.basic b), p) := by
  have hfind : BasicType.ofKeyword? b.keyword = some b := by cases b <;> decide
  rw [ofWord, hfind]

theorem ofWord_spelling (w : OldWord) (p : TypeParser) :
    ofWord w.deprecation.spelling p = (.ok (.basic w.deprecation.replacement),
      { p with deprecations := p.deprecations ++ [w.deprecation] }) := by
  have hnone : BasicType.ofKeyword? w.deprecation.spelling = none := by cases w <;> decide
  have hfind : deprecatedAliases.find? (fun d => d.spelling == w.deprecation.spelling)
      = some w.deprecation := by cases w <;> decide
  rw [ofWord, hnone, hfind]

/-- A word that is read is a keyword or a deprecated spelling. -/
theorem of_ofWord_eq_ok {w : String} {p p' : TypeParser} {t : TypeExpr}
    (h : ofWord w p = (.ok t, p')) :
    (∃ b : BasicType, w = b.keyword) ∨ ∃ old : OldWord, w = old.deprecation.spelling := by
  unfold ofWord at h
  split at h
  · next b hb =>
    have hkeyword := List.find?_some (p := fun b : BasicType => b.keyword == w) hb
    exact .inl ⟨b, (beq_iff_eq.mp hkeyword).symm⟩
  · split at h
    · next d hd =>
      have hfound := List.find?_some hd
      have hspelling : d.spelling = w := beq_iff_eq.mp hfound
      have hall : deprecatedAliases = [.bool, .int, .float].map OldWord.deprecation := rfl
      obtain ⟨old, -, rfl⟩ := List.mem_map.mp (hall ▸ List.mem_of_find?_eq_some hd)
      exact .inr ⟨old, hspelling.symm⟩
    · cases h

theorem classNameType_of_scan {p : TypeParser} {cs : List Char} {n : Nat} {ok : Bool}
    (hp : p.rest = '\\' :: cs) (h : scanClass .fresh cs = (n, ok)) :
    p.classNameType =
      if ok then (.ok (.classRef (String.ofList (cs.take n))), p.advance (n + 1))
      else
        (.error (.malformedClassName (String.ofList ('\\' :: cs.take n))), p.advance (n + 1)) := by
  have hscan : scanClass .fresh (p.rest.drop 1) = (n, ok) := by rw [hp]; exact h
  rw [classNameType, hscan, hp]
  rfl

variable {inner : TypeParser → Outcome}

theorem base_of_backslash {p : TypeParser} {cs : List Char} (hp : p.rest = '\\' :: cs) :
    base inner p = p.classNameType := by
  unfold base
  split
  · rfl
  · next hne => exact absurd hp (hne cs)

/-- A word, up to something that is not of it. -/
theorem base_of_word {p : TypeParser} {w r : List Char} (hp : p.rest = w ++ r) (hne : w ≠ [])
    (hw : ∀ c ∈ w, isWordChar c = true) (hr : ∀ c ∈ r.head?, isWordChar c = false) :
    base inner p =
      if r.head? = some '<' ∧ w = "iterable".toList then
        generic inner ((p.advance w.length).advance 1)
      else ofWord (String.ofList w) (p.advance w.length) := by
  have hword : p.word = w := by rw [word, hp, takeWhile_append_stop hw hr]
  have hrest : (p.advance w.length).rest = r := by rw [rest_advance, hp, List.drop_left]
  have hempty : w.isEmpty = false := by rwa [← Bool.not_eq_true, List.isEmpty_iff]
  unfold base
  split
  · next cs heq =>
    -- a word does not start with a backslash
    obtain ⟨c, cs', rfl⟩ := List.exists_cons_of_ne_nil hne
    rw [hp] at heq
    cases heq
    exact absurd (hw '\\' List.mem_cons_self) (by decide)
  · simp only [hword, hempty, Bool.false_eq_true, if_false]
    split
    · next cs heq =>
      rw [← hrest, heq]
      simp only [List.head?_cons, true_and]
    · next hangle =>
      have hhead : ¬ (r.head? = some '<' ∧ w = "iterable".toList) := by
        rintro ⟨hhead, -⟩
        cases r with
        | nil => cases hhead
        | cons c r =>
          cases hhead
          exact hangle r hrest
      rw [if_neg hhead]

/-- A word that ends the type. -/
theorem base_of_stops {p : TypeParser} {w : String} {r : List Char} (hp : p.rest = w.toList ++ r)
    (hne : w.toList ≠ []) (hw : ∀ c ∈ w.toList, isWordChar c = true) (hr : Stops r) :
    base inner p = ofWord w (p.advance w.toList.length) ∧
      p.rest = w.toList ++ (p.advance w.toList.length).rest := by
  refine ⟨?_, by rw [rest_advance, hp, List.drop_left]⟩
  rw [base_of_word hp hne hw hr.not_word, if_neg hr.not_angle, String.ofList_toList]

/-- Where no backslash and no word stands, no type starts. -/
theorem base_of_no_word {p p' : TypeParser} {t : TypeExpr} (hslash : ∀ cs, p.rest ≠ '\\' :: cs)
    (hword : p.word = []) : base inner p ≠ (.ok t, p') := by
  unfold base
  split
  · next cs heq => exact absurd heq (hslash cs)
  · simp only [hword, List.isEmpty_nil, if_true]
    exact unexpected_ne_ok _ _ _ _

theorem closing_of_bracket {p : TypeParser} {r : List Char} (t : TypeExpr)
    (hp : p.rest = '>' :: r) : closing t p = (.ok t, p.advance 1) := by
  unfold closing
  split
  · rfl
  · next hne => exact absurd hp (hne r)

theorem of_closing_eq_ok {p p' : TypeParser} {t t' : TypeExpr} (h : closing t p = (.ok t', p')) :
    t = t' ∧ p.rest = '>' :: p'.rest ∧ p'.deprecations = p.deprecations := by
  unfold closing at h
  split at h
  · next r hp =>
    cases h
    exact ⟨rfl, by rw [rest_advance, hp]; rfl, rfl⟩
  · exact absurd h (unexpected_ne_ok _ _ _ _)

/-! ### Every derivation is read -/

/-- A reader reads a derivation wherever its text stands before something that may follow it. -/
def Accepts {n : Nonterminal} (read : TypeParser → Outcome) (d : Derivation n) : Prop :=
  ∀ ⦃p : TypeParser⦄ ⦃r : List Char⦄, p.rest = d.text ++ r → Follow n r →
    ∃ p', read p = (.ok d.tree, p') ∧ d.Spans p p'

theorem accepts_keyword (b : BasicType) : Accepts (base inner) (.keyword b) := by
  intro p r hp hr
  have hne : b.keyword.toList ≠ [] := by cases b <;> decide
  obtain ⟨hbase, hrest⟩ := base_of_stops hp hne (keyword_isWordChar b) hr
  rw [ofWord_keyword] at hbase
  exact ⟨_, hbase, hrest, (List.append_nil _).symm⟩

theorem accepts_deprecated (w : OldWord) : Accepts (base inner) (.deprecated w) := by
  intro p r hp hr
  have hne : w.deprecation.spelling.toList ≠ [] := by cases w <;> decide
  obtain ⟨hbase, hrest⟩ := base_of_stops hp hne w.isWordChar_of_mem hr
  rw [ofWord_spelling] at hbase
  exact ⟨_, hbase, hrest, rfl⟩

theorem accepts_className (first : ClassWord) (more : List ClassWord) :
    Accepts (base inner) (.className first more) := by
  intro p r hp hr
  have hname : p.rest = '\\' :: (first.chars ++ classText more ++ r) := hp
  have hscan := scanClass_fresh_append first (classText more ++ r)
  rw [scanClass_good_classText more hr, ← List.append_assoc] at hscan
  have hlen : (classText more).length + first.chars.length
      = (first.chars ++ classText more).length := by
    rw [List.length_append, Nat.add_comm]
  rw [hlen] at hscan
  have hbase : base inner p = _ :=
    (base_of_backslash hname).trans (classNameType_of_scan hname hscan)
  rw [List.take_left, if_pos rfl] at hbase
  refine ⟨_, hbase, ?_, (List.append_nil _).symm⟩
  rw [rest_advance, hname, List.drop_succ_cons, List.drop_left]
  rfl

/-- A derivation with blanks around it. -/
theorem Accepts.between {d : Derivation .type} (h : Accepts inner d) {b b' : Blanks}
    {p : TypeParser} {r : List Char} (hp : p.rest = b.chars ++ (d.text ++ (b'.chars ++ r)))
    (hr : Ends r) :
    ∃ p', inner p.skipBlanks = (.ok d.tree, p') ∧ p'.skipBlanks.rest = r ∧
      p'.skipBlanks.deprecations = p.deprecations ++ d.spellings := by
  have hstart := rest_skipBlanks_of_append b hp (d.noBlank_append _)
  obtain ⟨p', hread, hspan⟩ := h hstart (b'.closes_append hr)
  have hrest : p'.rest = b'.chars ++ r := List.append_cancel_left (hspan.rest.symm.trans hstart)
  exact ⟨p', hread, rest_skipBlanks_of_append b' hrest hr.noBlank, hspan.deprecations⟩

theorem generic_of_bracket {p p₁ : TypeParser} {t : TypeExpr} {r : List Char}
    (hread : inner p.skipBlanks = (.ok t, p₁)) (hrest : p₁.skipBlanks.rest = '>' :: r) :
    generic inner p = (.ok (.iterableOf t), p₁.skipBlanks.advance 1) := by
  rw [generic, hread]
  simp only [hrest]
  exact closing_of_bracket _ hrest

theorem generic_of_comma {p p₁ p₂ : TypeParser} {k t : TypeExpr} {r r' : List Char}
    (hkey : inner p.skipBlanks = (.ok k, p₁)) (hcomma : p₁.skipBlanks.rest = ',' :: r)
    (htype : isKeyType k = true)
    (hvalue : inner (p₁.skipBlanks.advance 1).skipBlanks = (.ok t, p₂))
    (hrest : p₂.skipBlanks.rest = '>' :: r') :
    generic inner p = (.ok (.keyedIterable k t), p₂.skipBlanks.advance 1) := by
  rw [generic, hkey]
  simp only [hcomma, htype, hvalue, if_true]
  exact closing_of_bracket _ hrest

theorem base_of_iterable (inner : TypeParser → Outcome) {p : TypeParser} {r : List Char}
    (hp : p.rest = "iterable".toList ++ ('<' :: r)) :
    ∃ p₁, base inner p = generic inner p₁ ∧ p₁.rest = r ∧ p₁.deprecations = p.deprecations := by
  have hangle : ∀ c ∈ ('<' :: r).head?, isWordChar c = false := by
    intro c hc
    cases hc
    decide
  have hbase : base inner p = generic inner _ :=
    (base_of_word hp (by decide) (keyword_isWordChar .iterable) hangle).trans (if_pos ⟨rfl, rfl⟩)
  refine ⟨_, hbase, ?_, rfl⟩
  rw [rest_advance, rest_advance, hp, List.drop_left]
  rfl

theorem accepts_iterableOf {value : Derivation .type} (h : Accepts inner value)
    (opening closing : Blanks) : Accepts (base inner) (.iterableOf opening value closing) := by
  intro p r hp _
  rw [Derivation.text_iterableOf_append] at hp
  obtain ⟨p₁, hbase, hrest₁, hdep₁⟩ := base_of_iterable inner hp
  obtain ⟨p₂, hread, hrest₂, hdep₂⟩ := h.between hrest₁ (ends_bracket r)
  rw [generic_of_bracket hread hrest₂] at hbase
  refine ⟨_, hbase, ?_, ?_⟩
  · rw [Derivation.text_iterableOf_append, hp, rest_advance, hrest₂]
    rfl
  · rw [deprecations_advance, hdep₂, hdep₁]
    rfl

theorem accepts_keyedIterable {key : KeyWord} {value : Derivation .type}
    (hkey : Accepts inner key.derivation) (hvalue : Accepts inner value)
    (opening before after closing : Blanks) :
    Accepts (base inner) (.keyedIterable opening key before after value closing) := by
  intro p r hp _
  rw [Derivation.text_keyedIterable_append] at hp
  obtain ⟨p₁, hbase, hrest₁, hdep₁⟩ := base_of_iterable inner hp
  rw [← key.text_derivation] at hrest₁
  obtain ⟨p₂, hread₂, hrest₂, hdep₂⟩ := hkey.between hrest₁ (ends_comma _)
  rw [key.tree_derivation] at hread₂
  have hafter : (p₂.skipBlanks.advance 1).rest = after.chars ++ (value.text ++ (closing.chars ++
      ('>' :: r))) := by
    rw [rest_advance, hrest₂]
    rfl
  obtain ⟨p₃, hread₃, hrest₃, hdep₃⟩ := hvalue.between hafter (ends_bracket r)
  rw [generic_of_comma hread₂ hrest₂ key.isKeyType_tree hread₃ hrest₃] at hbase
  refine ⟨_, hbase, ?_, ?_⟩
  · rw [Derivation.text_keyedIterable_append, hp, rest_advance, hrest₃]
    rfl
  · rw [deprecations_advance, hdep₃, deprecations_advance, hdep₂, hdep₁, key.spellings_derivation,
      List.append_assoc]
    rfl

theorem accepts_single {d : Derivation .base} (h : Accepts (base inner) d) :
    Accepts (suffixed inner) (.single d) := by
  intro p r hp hr
  have hr' : Closes r := hr
  obtain ⟨p', hread, hspan⟩ := h hp hr'.stops
  have hrest : p'.rest = r := List.append_cancel_left (hspan.rest.symm.trans hp)
  refine ⟨p', ?_, hspan.rest, hspan.deprecations⟩
  rw [suffixed, hread]
  simp only
  split
  · next cs heq => exact absurd rfl (hr'.ne_bracket '[' (by rw [← hrest, heq]; rfl))
  · rfl

theorem accepts_array {d : Derivation .base} (h : Accepts (base inner) d) :
    Accepts (suffixed inner) (.array d) := by
  intro p r hp _
  rw [Derivation.text_array_append] at hp
  obtain ⟨p', hread, hspan⟩ := h hp (stops_brackets r)
  have hrest : p'.rest = '[' :: ']' :: r := List.append_cancel_left (hspan.rest.symm.trans hp)
  refine ⟨p'.advance 2, ?_, ?_, hspan.deprecations⟩
  · rw [suffixed, hread]
    simp only [hrest]
    rfl
  · rw [Derivation.text_array_append, hp, rest_advance, hrest]
    rfl

theorem typeWith_of_ne {p : TypeParser} (h : ∀ c ∈ p.rest.head?, c ≠ '?') :
    typeWith inner p = suffixed inner p := by
  unfold typeWith
  split
  · next heq => exact absurd rfl (h '?' (by rw [heq]; rfl))
  · next heq => exact absurd rfl (h '?' (by rw [heq]; rfl))
  · rfl

theorem accepts_plain {d : Derivation .suffixed} (h : Accepts (suffixed inner) d) :
    Accepts (typeWith inner) (.plain d) := by
  intro p r hp hr
  have hp' : p.rest = d.text ++ r := hp
  have hne : ∀ c ∈ p.rest.head?, c ≠ '?' := by
    intro c hc
    rw [hp'] at hc
    exact (d.starts_append r c hc).ne_question (by decide)
  obtain ⟨p', hread, hspan⟩ := h hp hr
  exact ⟨p', (typeWith_of_ne hne).trans hread, hspan.rest, hspan.deprecations⟩

theorem accepts_nullable {d : Derivation .suffixed} (h : Accepts (suffixed inner) d) :
    Accepts (typeWith inner) (.nullable d) := by
  intro p r hp hr
  have hp' : p.rest = '?' :: (d.text ++ r) := hp
  have hadvance : (p.advance 1).rest = d.text ++ r := by rw [rest_advance, hp']; rfl
  obtain ⟨p', hread, hspan⟩ := h hadvance hr
  refine ⟨p', ?_, ?_, hspan.deprecations⟩
  · unfold typeWith
    split
    · next cs heq =>
      -- a second question mark would start the text behind the first
      have hsecond : d.text ++ r = '?' :: cs := List.tail_eq_of_cons_eq (hp'.symm.trans heq)
      have hstart := d.starts_append r '?' (by rw [hsecond]; rfl)
      exact absurd rfl (hstart.ne_question (by decide))
    · rw [hread]
      rfl
    · next hne => exact absurd hp' (hne _)
  · rw [hp', ← hadvance, hspan.rest]
    rfl

/-- The reader of a nonterminal, for brackets that nest at most `bound` deep. -/
def reader (bound : Nat) : Nonterminal → TypeParser → Outcome
  | .type => typeWithin (bound + 1)
  | .suffixed => suffixed (typeWithin bound)
  | .base => base (typeWithin bound)

theorem accepts_key (key : KeyWord) (bound : Nat) :
    Accepts (typeWithin (bound + 1)) key.derivation := by
  cases key with
  | string => exact accepts_plain (accepts_single (accepts_keyword .string))
  | number => exact accepts_plain (accepts_single (accepts_keyword .number))
  | int => exact accepts_plain (accepts_single (accepts_deprecated .int))
  | float => exact accepts_plain (accepts_single (accepts_deprecated .float))

/-- **Every derivation is read**, whatever may follow stands behind it. -/
theorem accepts_derivation {n : Nonterminal} (d : Derivation n) :
    ∀ {bound : Nat}, d.depth ≤ bound → Accepts (reader bound n) d := by
  induction d with
  | plain d ih => exact fun h => accepts_plain (ih h)
  | nullable d ih => exact fun h => accepts_nullable (ih h)
  | single d ih => exact fun h => accepts_single (ih h)
  | array d ih => exact fun h => accepts_array (ih h)
  | keyword b => exact fun _ => accepts_keyword b
  | deprecated w => exact fun _ => accepts_deprecated w
  | className first more => exact fun _ => accepts_className first more
  | iterableOf opening value closing ih =>
    intro bound h
    -- the type between the brackets is read with one level less
    obtain ⟨inside, rfl⟩ := Nat.exists_eq_add_one_of_ne_zero (Nat.ne_zero_of_lt h)
    exact accepts_iterableOf (ih (Nat.le_of_succ_le_succ h)) opening closing
  | keyedIterable opening key before after value closing ih =>
    intro bound h
    obtain ⟨inside, rfl⟩ := Nat.exists_eq_add_one_of_ne_zero (Nat.ne_zero_of_lt h)
    exact accepts_keyedIterable (accepts_key key inside) (ih (Nat.le_of_succ_le_succ h))
      opening before after closing

end TypeParser

end TemplateContracts
