import TemplateContracts.Proofs.TypeReading

/-!
# The parser of declared types accepts its grammar

The other direction: what the parser reads has a derivation.  A reader takes the reader of the types
between brackets as an argument, so each is sound if that one is, and the bound on nested brackets
enters in one induction at the end.

That a text has one derivation only uses the parser once more.  Two derivations of a text are both
read, so they end at the same place, stand for the same type and have the same spellings; what is
left is to see that their parts are cut at the same places.

* `sound_typeWithin` : what is read has a derivation;
* `parse_of_sentence`, `exists_sentence_of_parse` : both directions for whole texts;
* `TypeGrammar.Derivation.unique`, `TypeGrammar.Sentence.unique` : one derivation only;
* `TypeParser.parse_iff_derivation` : **the parser accepts its grammar and nothing else**.
-/

namespace TemplateContracts

open TypeGrammar

namespace TypeParser

variable {inner : TypeParser → Outcome}

/-! ### Whatever is read has a derivation -/

/-- A reader stops only behind a derivation of what it gives. -/
def Sound (read : TypeParser → Outcome) (n : Nonterminal) : Prop :=
  ∀ ⦃p p' : TypeParser⦄ ⦃t : TypeExpr⦄, read p = (.ok t, p') →
    ∃ d : Derivation n, d.tree = t ∧ d.Spans p p'

theorem exists_blanks (p : TypeParser) : ∃ b : Blanks, p.rest = b.chars ++ p.skipBlanks.rest := by
  refine ⟨⟨p.rest.takeWhile Text.isBlank, List.all_eq_true.mp List.all_takeWhile⟩, ?_⟩
  rw [rest_skipBlanks, List.takeWhile_append_dropWhile]

/-- What is read between blanks. -/
theorem Sound.between (h : Sound inner .type) {p p' : TypeParser} {t : TypeExpr}
    (hread : inner p.skipBlanks = (.ok t, p')) :
    ∃ (b : Blanks) (d : Derivation .type) (b' : Blanks), d.tree = t ∧
      p.rest = b.chars ++ (d.text ++ (b'.chars ++ p'.skipBlanks.rest)) ∧
      p'.skipBlanks.deprecations = p.deprecations ++ d.spellings := by
  obtain ⟨d, htree, hspan⟩ := h hread
  obtain ⟨b, hb⟩ := exists_blanks p
  obtain ⟨b', hb'⟩ := exists_blanks p'
  exact ⟨b, d, b', htree, by rw [← hb', ← hspan.rest, ← hb], hspan.deprecations⟩

theorem sound_className {p p' : TypeParser} {t : TypeExpr} {cs : List Char}
    (hp : p.rest = '\\' :: cs) (h : p.classNameType = (.ok t, p')) :
    ∃ d : Derivation .base, d.tree = t ∧ d.Spans p p' := by
  obtain ⟨n, ok, hscan⟩ : ∃ n ok, scanClass .fresh cs = (n, ok) := ⟨_, _, rfl⟩
  rw [classNameType_of_scan hp hscan] at h
  cases ok with
  | false => cases h
  | true =>
    obtain ⟨-, w, more, r, rfl, rfl, hword, hfresh⟩ := of_scanClass_eq_true hscan
    obtain ⟨hne, hstart⟩ := hfresh rfl
    rw [List.take_left] at h
    cases h
    let first : ClassWord := ⟨w, hne, fun c hc => isWordChar_iff.mp (hword c hc), hstart⟩
    refine ⟨.className first more, rfl, ?_, ?_⟩
    · rw [rest_advance, hp, List.drop_succ_cons, List.drop_left]
      rfl
    · exact (List.append_nil _).symm

/-- What follows `iterable<`. -/
theorem sound_generic (h : Sound inner .type) {p p' : TypeParser} {t : TypeExpr}
    (hread : generic inner p = (.ok t, p')) :
    ∃ d : Derivation .base, d.tree = t ∧ "iterable".toList ++ ('<' :: p.rest) = d.text ++ p'.rest ∧
      p'.deprecations = p.deprecations ++ d.spellings := by
  unfold generic at hread
  split at hread
  · cases hread
  next first p₁ hfirst =>
  obtain ⟨b₁, d₁, b₂, rfl, hrest₁, hdep₁⟩ := h.between hfirst
  simp only at hread
  split at hread
  · next cs hcomma =>
    split at hread
    · next hkey =>
      split at hread
      · cases hread
      next value p₂ hvalue =>
      obtain ⟨b₃, d₂, b₄, rfl, hrest₂, hdep₂⟩ := h.between hvalue
      obtain ⟨rfl, hclose, hdep⟩ := of_closing_eq_ok hread
      obtain ⟨key, rfl⟩ := KeyWord.exists_of_isKeyType hkey
      have hcs : cs = b₃.chars ++ (d₂.text ++ (b₄.chars ++ ('>' :: p'.rest))) := by
        rw [rest_advance, hcomma, hclose] at hrest₂
        exact hrest₂
      refine ⟨.keyedIterable b₁ key b₂ b₃ d₂ b₄, ?_, ?_, ?_⟩
      · rw [key.tree_derivation]
        rfl
      · rw [Derivation.text_keyedIterable_append, hrest₁, hcomma, hcs, key.text_derivation]
      · rw [hdep, hdep₂, deprecations_advance, hdep₁, key.spellings_derivation, List.append_assoc]
        rfl
    · cases hread
  · obtain ⟨rfl, hclose, hdep⟩ := of_closing_eq_ok hread
    refine ⟨.iterableOf b₁ d₁ b₂, rfl, ?_, hdep.trans hdep₁⟩
    rw [Derivation.text_iterableOf_append, hrest₁, hclose]

theorem sound_ofWord {p p' : TypeParser} {w r : List Char} {t : TypeExpr} (hp : p.rest = w ++ r)
    (h : ofWord (String.ofList w) (p.advance w.length) = (.ok t, p')) :
    ∃ d : Derivation .base, d.tree = t ∧ d.Spans p p' := by
  have hrest : p.rest = w ++ (p.advance w.length).rest := by rw [rest_advance, hp, List.drop_left]
  rcases of_ofWord_eq_ok h with ⟨b, hw⟩ | ⟨old, hw⟩
  · have hchars : w = b.keyword.toList := by rw [← hw, String.toList_ofList]
    rw [hw, ofWord_keyword] at h
    cases h
    exact ⟨.keyword b, rfl, hrest.trans (by rw [hchars]; rfl), (List.append_nil _).symm⟩
  · have hchars : w = old.deprecation.spelling.toList := by rw [← hw, String.toList_ofList]
    rw [hw, ofWord_spelling] at h
    cases h
    exact ⟨.deprecated old, rfl, hrest.trans (by rw [hchars]; rfl), rfl⟩

theorem exists_word (p : TypeParser) : ∃ w r, p.word = w ∧ p.rest = w ++ r ∧
    (∀ c ∈ w, isWordChar c = true) ∧ ∀ c ∈ r.head?, isWordChar c = false := by
  refine ⟨p.word, p.rest.dropWhile isWordChar, rfl, List.takeWhile_append_dropWhile.symm,
    List.all_eq_true.mp List.all_takeWhile, ?_⟩
  intro c hc
  have hnot := List.head?_dropWhile_not isWordChar p.rest
  rw [Option.mem_def.mp hc] at hnot
  exact hnot

theorem sound_base (h : Sound inner .type) : Sound (base inner) .base := by
  intro p p' t hread
  by_cases hslash : ∃ cs, p.rest = '\\' :: cs
  · obtain ⟨cs, hp⟩ := hslash
    rw [base_of_backslash hp] at hread
    exact sound_className hp hread
  obtain ⟨w, r, hword, hp, hw, hr⟩ := p.exists_word
  have hne : w ≠ [] := by
    rintro rfl
    exact base_of_no_word (fun cs hp => hslash ⟨cs, hp⟩) hword hread
  rw [base_of_word hp hne hw hr] at hread
  split at hread
  · next hiterable =>
    obtain ⟨hangle, rfl⟩ := hiterable
    obtain ⟨r, rfl⟩ := List.head?_eq_some_iff.mp hangle
    obtain ⟨d, htree, hrest, hdep⟩ := sound_generic h hread
    refine ⟨d, htree, ?_, hdep⟩
    rw [← hrest, rest_advance, rest_advance, hp, List.drop_left]
    rfl
  · exact sound_ofWord hp hread

theorem sound_suffixed (h : Sound (base inner) .base) : Sound (suffixed inner) .suffixed := by
  intro p p' t hread
  unfold suffixed at hread
  split at hread
  · cases hread
  next t₁ p₁ hbase =>
  obtain ⟨d, rfl, hspan⟩ := h hbase
  split at hread
  · next r hr =>
    cases hread
    refine ⟨.array d, rfl, ?_, hspan.deprecations⟩
    rw [hspan.rest, rest_advance, hr, Derivation.text_array_append]
    rfl
  · cases hread
    exact ⟨.single d, rfl, hspan.rest, hspan.deprecations⟩

theorem sound_typeWith (h : Sound (suffixed inner) .suffixed) : Sound (typeWith inner) .type := by
  intro p p' t hread
  unfold typeWith at hread
  split at hread
  · cases hread
  · next r _ hp =>
    split at hread
    · cases hread
    next t₁ p₁ hsuffixed =>
    cases hread
    obtain ⟨d, rfl, hspan⟩ := h hsuffixed
    refine ⟨.nullable d, rfl, ?_, hspan.deprecations⟩
    have hrest := hspan.rest
    rw [rest_advance, hp] at hrest
    rw [hp]
    exact congrArg ('?' :: ·) hrest
  · obtain ⟨d, rfl, hspan⟩ := h hread
    exact ⟨.plain d, rfl, hspan.rest, hspan.deprecations⟩

/-- **Whatever is read has a derivation.** -/
theorem sound_typeWithin (bound : Nat) : Sound (typeWithin bound) .type := by
  induction bound with
  | zero => exact fun p p' t h => nomatch h
  | succ bound ih => exact sound_typeWith (sound_suffixed (sound_base ih))

/-! ### Whole texts -/

theorem parse_of_read {p p' : TypeParser} {t : TypeExpr} (hne : p.skipBlanks.rest ≠ [])
    (hread : typeWithin (p.skipBlanks.rest.length + 1) p.skipBlanks = (.ok t, p'))
    (hend : p'.skipBlanks.rest = []) : p.parse = (.ok t, p'.skipBlanks) := by
  have hsome : p.skipBlanks.rest.isEmpty = false := by
    rwa [← Bool.not_eq_true, List.isEmpty_iff]
  simp only [parse, hsome, hread, hend, Bool.false_eq_true, if_false, List.isEmpty_nil, if_true]

theorem of_parse_eq_ok {p p' : TypeParser} {t : TypeExpr} (h : p.parse = (.ok t, p')) :
    ∃ p₁, typeWithin (p.skipBlanks.rest.length + 1) p.skipBlanks = (.ok t, p₁) ∧
      p₁.skipBlanks = p' ∧ p'.rest = [] := by
  simp only [parse] at h
  split at h
  · cases h
  split at h
  · cases h
  next t₁ p₁ hread =>
  split at h
  · next hend =>
    cases h
    exact ⟨p₁, hread, rfl, List.isEmpty_iff.mp hend⟩
  · exact absurd h (unexpected_ne_ok _ _ _ _)

theorem parse_of_sentence (d : Sentence) {p : TypeParser} (hp : p.rest = d.text) :
    ∃ p', p.parse = (.ok d.type.tree, p') ∧
      p'.deprecations = p.deprecations ++ d.type.spellings := by
  have hp' : p.rest = d.before.chars ++ (d.type.text ++ (d.behind.chars ++ [])) := by
    rw [hp, Sentence.text, List.append_nil, List.append_assoc]
  have hstart := rest_skipBlanks_of_append d.before hp' (d.type.noBlank_append _)
  obtain ⟨c, cs, htext, -⟩ := d.type.exists_text_eq_cons
  have hne : p.skipBlanks.rest ≠ [] := by
    rw [hstart, htext]
    exact List.cons_ne_nil _ _
  have hdepth : d.type.depth ≤ p.skipBlanks.rest.length := by
    rw [hstart, List.length_append]
    exact Nat.le_add_right_of_le d.type.depth_le_length
  obtain ⟨p', hread, hend, hdep⟩ := (accepts_derivation d.type hdepth).between hp' ends_nil
  exact ⟨p'.skipBlanks, parse_of_read hne hread hend, hdep⟩

theorem exists_sentence_of_parse {p p' : TypeParser} {t : TypeExpr} (h : p.parse = (.ok t, p')) :
    ∃ d : Sentence, d.text = p.rest ∧ d.type.tree = t ∧
      p'.deprecations = p.deprecations ++ d.type.spellings := by
  obtain ⟨p₁, hread, rfl, hend⟩ := of_parse_eq_ok h
  obtain ⟨b, d, b', htree, hrest, hdep⟩ := (sound_typeWithin _).between hread
  refine ⟨⟨b, d, b'⟩, ?_, htree, hdep⟩
  rw [hrest, hend, List.append_nil, Sentence.text, List.append_assoc]

end TypeParser

namespace TypeGrammar

open TypeParser

/-! ### One derivation only -/

/-- The reader decides where the text of a derivation ends, and what it stands for. -/
theorem Derivation.determined {n : Nonterminal} {d d' : Derivation n} {r r' : List Char}
    (h : d.text ++ r = d'.text ++ r') (hr : Follow n r) (hr' : Follow n r') :
    d.tree = d'.tree ∧ d.spellings = d'.spellings ∧ r = r' := by
  let p : TypeParser := ⟨d.text ++ r, 0, []⟩
  have hp : p.rest = d.text ++ r := rfl
  have hp' : p.rest = d'.text ++ r' := h
  obtain ⟨p₁, hread₁, hspan₁⟩ := accepts_derivation d (Nat.le_max_left d.depth d'.depth) hp hr
  obtain ⟨p₂, hread₂, hspan₂⟩ := accepts_derivation d' (Nat.le_max_right d.depth d'.depth) hp' hr'
  obtain ⟨htree, rfl⟩ : d.tree = d'.tree ∧ p₁ = p₂ := by simpa using hread₁.symm.trans hread₂
  have hdep : d.spellings = d'.spellings := hspan₁.deprecations.symm.trans hspan₂.deprecations
  have hrest₁ : p₁.rest = r := List.append_cancel_left (hspan₁.rest.symm.trans hp)
  have hrest₂ : p₁.rest = r' := List.append_cancel_left (hspan₂.rest.symm.trans hp')
  exact ⟨htree, hdep, hrest₁.symm.trans hrest₂⟩

/-- What is of one kind up to something of another kind can be cut in one way. -/
theorem append_inj_of_stop {q : Char → Bool} {w w' r r' : List Char} (h : w ++ r = w' ++ r')
    (hw : ∀ c ∈ w, q c = true) (hr : ∀ c ∈ r.head?, q c = false)
    (hw' : ∀ c ∈ w', q c = true) (hr' : ∀ c ∈ r'.head?, q c = false) : w = w' ∧ r = r' := by
  have hword : w = w' := by
    rw [← takeWhile_append_stop hw hr, h, takeWhile_append_stop hw' hr']
  subst hword
  exact ⟨rfl, List.append_cancel_left h⟩

theorem Blanks.unique {b b' : Blanks} {r r' : List Char} (h : b.chars ++ r = b'.chars ++ r')
    (hr : NoBlank r) (hr' : NoBlank r') : b = b' ∧ r = r' := by
  obtain ⟨hchars, hrest⟩ := append_inj_of_stop h b.blank hr b'.blank hr'
  exact ⟨Blanks.ext hchars, hrest⟩

/-- What follows a word in a class name. -/
theorem head?_classText (words : List ClassWord) :
    ∀ c ∈ (classText words).head?, isWordChar c = false := by
  intro c hc
  cases words with
  | nil => cases hc
  | cons w words =>
    cases hc
    decide

theorem classText_injective : ∀ {words words' : List ClassWord},
    classText words = classText words' → words = words'
  | [], [], _ => rfl
  | w :: words, w' :: words', h => by
    have hrest : w.chars ++ classText words = w'.chars ++ classText words' :=
      List.tail_eq_of_cons_eq h
    obtain ⟨hchars, hmore⟩ := append_inj_of_stop hrest w.isWordChar_of_mem (head?_classText words)
      w'.isWordChar_of_mem (head?_classText words')
    rw [ClassWord.ext hchars, classText_injective hmore]

theorem KeyWord.text_injective {k k' : KeyWord} : k.text = k'.text → k = k' := by
  cases k <;> cases k' <;> decide

theorem OldWord.deprecation_injective {w w' : OldWord} :
    w.deprecation = w'.deprecation → w = w' := by
  cases w <;> cases w' <;> decide

theorem KeyWord.noBlank_append (k : KeyWord) (r : List Char) : NoBlank (k.text ++ r) := by
  rw [← k.text_derivation]
  exact k.derivation.noBlank_append r

/-- The word of a key ends at a blank or a comma. -/
theorem KeyWord.unique {k k' : KeyWord} {b b' : Blanks} {r r' : List Char}
    (h : k.text ++ (b.chars ++ (',' :: r)) = k'.text ++ (b'.chars ++ (',' :: r'))) :
    k = k' ∧ b = b' ∧ r = r' := by
  obtain ⟨htext, hrest⟩ := append_inj_of_stop h
    k.isWordChar_of_mem (b.closes_append (ends_comma r)).stops.not_word
    k'.isWordChar_of_mem (b'.closes_append (ends_comma r')).stops.not_word
  obtain ⟨hblanks, hcomma⟩ := Blanks.unique hrest (ends_comma r).noBlank (ends_comma r').noBlank
  exact ⟨KeyWord.text_injective htext, hblanks, List.tail_eq_of_cons_eq hcomma⟩

/-- Brackets behind a type belong to it. -/
theorem single_ne_array {d d' : Derivation .base} {r r' : List Char} (hr : Closes r) :
    (Derivation.single d).text ++ r ≠ (Derivation.array d').text ++ r' := by
  intro h
  have hbrackets : d.text ++ r = d'.text ++ ('[' :: ']' :: r') :=
    h.trans (Derivation.text_array_append d' r')
  obtain ⟨-, -, hrest⟩ := Derivation.determined hbrackets hr.stops (stops_brackets r')
  exact hr.ne_bracket '[' (by rw [hrest]; rfl) rfl

theorem plain_ne_nullable {d d' : Derivation .suffixed} {r r' : List Char} :
    (Derivation.plain d).text ++ r ≠ (Derivation.nullable d').text ++ r' := by
  intro h
  have hquestion : d.text ++ r = '?' :: (d'.text ++ r') := h
  have hstart := d.starts_append r '?' (by rw [hquestion]; rfl)
  exact hstart.ne_question (by decide) rfl

/-- What stands between blanks, given that the type does not come in two ways. -/
theorem Blanks.unique_around {b b' c c' : Blanks} {d d' : Derivation .type} {r r' : List Char}
    (h : b.chars ++ (d.text ++ (c.chars ++ r)) = b'.chars ++ (d'.text ++ (c'.chars ++ r')))
    (hr : Ends r) (hr' : Ends r')
    (hd : d.text ++ (c.chars ++ r) = d'.text ++ (c'.chars ++ r') → Closes (c.chars ++ r) →
      Closes (c'.chars ++ r') → d = d') : b = b' ∧ d = d' ∧ c = c' := by
  obtain ⟨hopening, htype⟩ := Blanks.unique h (d.noBlank_append _) (d'.noBlank_append _)
  obtain rfl := hd htype (c.closes_append hr) (c'.closes_append hr')
  obtain ⟨hclosing, -⟩ := Blanks.unique (List.append_cancel_left htype) hr.noBlank hr'.noBlank
  exact ⟨hopening, rfl, hclosing⟩

/-- **A text has one derivation**, whatever may follow stands behind it. -/
theorem Derivation.unique {n : Nonterminal} (d : Derivation n) :
    ∀ {d' : Derivation n} {r r' : List Char}, d.text ++ r = d'.text ++ r' → Follow n r →
      Follow n r' → d = d' := by
  -- the reader tells apart what stands for different types or has different spellings; the rest is
  -- to cut equal texts at the same places
  induction d with
  | plain d ih =>
    intro d' r r' h hr hr'
    cases d' with
    | plain d' => rw [ih h hr hr']
    | nullable d' => exact absurd h plain_ne_nullable
  | nullable d ih =>
    intro d' r r' h hr hr'
    cases d' with
    | plain d' => exact absurd h.symm plain_ne_nullable
    | nullable d' => rw [ih (List.tail_eq_of_cons_eq h) hr hr']
  | single d ih =>
    intro d' r r' h hr hr'
    cases d' with
    | single d' => rw [ih h (Closes.stops hr) (Closes.stops hr')]
    | array d' => exact absurd h (single_ne_array hr)
  | array d ih =>
    intro d' r r' h hr hr'
    cases d' with
    | single d' => exact absurd h.symm (single_ne_array hr')
    | array d' =>
      rw [text_array_append, text_array_append] at h
      rw [ih h (stops_brackets r) (stops_brackets r')]
  | keyword b =>
    intro d' r r' h hr hr'
    obtain ⟨htree, hspellings, -⟩ := determined h hr hr'
    cases d' with
    | keyword b' => cases htree; rfl
    | deprecated w' => cases hspellings
    | _ => cases htree
  | deprecated w =>
    intro d' r r' h hr hr'
    obtain ⟨htree, hspellings, -⟩ := determined h hr hr'
    cases d' with
    | keyword b' => cases hspellings
    | deprecated w' => rw [OldWord.deprecation_injective (List.singleton_inj.mp hspellings)]
    | _ => cases htree
  | iterableOf opening value closing ih =>
    intro d' r r' h hr hr'
    obtain ⟨htree, -, -⟩ := determined h hr hr'
    cases d' with
    | iterableOf opening' value' closing' =>
      rw [text_iterableOf_append, text_iterableOf_append] at h
      have hinside := List.tail_eq_of_cons_eq (List.append_cancel_left h)
      obtain ⟨rfl, rfl, rfl⟩ :=
        Blanks.unique_around hinside (ends_bracket r) (ends_bracket r') ih
      rfl
    | _ => cases htree
  | keyedIterable opening key before after value closing ih =>
    intro d' r r' h hr hr'
    obtain ⟨htree, -, -⟩ := determined h hr hr'
    cases d' with
    | keyedIterable opening' key' before' after' value' closing' =>
      rw [text_keyedIterable_append, text_keyedIterable_append] at h
      have hinside := List.tail_eq_of_cons_eq (List.append_cancel_left h)
      obtain ⟨rfl, hkey⟩ := Blanks.unique hinside (key.noBlank_append _) (key'.noBlank_append _)
      obtain ⟨rfl, rfl, hafter⟩ := KeyWord.unique hkey
      obtain ⟨rfl, rfl, rfl⟩ :=
        Blanks.unique_around hafter (ends_bracket r) (ends_bracket r') ih
      rfl
    | _ => cases htree
  | className first more =>
    intro d' r r' h hr hr'
    obtain ⟨htree, -, rfl⟩ := determined h hr hr'
    cases d' with
    | className first' more' =>
      cases classText_injective (List.append_cancel_right h)
      rfl
    | _ => cases htree

theorem Sentence.unique {d d' : Sentence} (h : d.text = d'.text) : d = d' := by
  obtain ⟨before, type, behind⟩ := d
  obtain ⟨before', type', behind'⟩ := d'
  have htext : before.chars ++ (type.text ++ (behind.chars ++ []))
      = before'.chars ++ (type'.text ++ (behind'.chars ++ [])) := by
    simpa only [Sentence.text, List.append_assoc, List.append_nil] using h
  obtain ⟨rfl, rfl, rfl⟩ := Blanks.unique_around htext ends_nil ends_nil type.unique
  rfl

end TypeGrammar

/-- **The parser accepts its grammar and nothing else.**  A text is read as the type `t` with the
deprecated spellings `ds` exactly if it has a derivation that stands for `t` and has these
spellings, in this order; and a text has at most one derivation. -/
theorem TypeParser.parse_iff_derivation (s : String) (t : TypeExpr) (ds : List Deprecation) :
    ((ofText s).parse.1 = .ok t ∧ (ofText s).parse.2.deprecations = ds ↔
      ∃ d : Sentence, d.text = s.toList ∧ d.type.tree = t ∧ d.type.spellings = ds) ∧
    ∀ d d' : Sentence, d.text = s.toList → d'.text = s.toList → d = d' := by
  refine ⟨⟨?_, ?_⟩, fun d d' h h' => Sentence.unique (h.trans h'.symm)⟩
  · rintro ⟨hok, rfl⟩
    obtain ⟨d, htext, htree, hdep⟩ := exists_sentence_of_parse (Prod.ext hok rfl)
    exact ⟨d, htext, htree, hdep.symm⟩
  · rintro ⟨d, htext, rfl, rfl⟩
    have hrest : (ofText s).rest = d.text := htext.symm
    obtain ⟨p', hparse, hdep⟩ := parse_of_sentence d hrest
    rw [hparse]
    exact ⟨rfl, hdep⟩

end TemplateContracts
