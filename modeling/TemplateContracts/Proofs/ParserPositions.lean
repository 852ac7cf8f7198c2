import TemplateContracts.Proofs.TypeParsing

/-!
# The positions of the type parser

A `TypeParser` holds what is left of its text beside a number of bytes, and nothing in its type ties
the one to the other.  Here they are tied: from the start of a text on, the bytes always count to a
boundary between two characters, and what is left is the text from there.  So every slice that a
reader takes is one of the text.

The readers of parts move ahead or note a spelling and do nothing else to a position; each is shown
to end ahead of where it starts, whatever its outcome, and a bracket to ask for the type inside only
at positions ahead.

* `TypeParser.Ahead` : a position is reached from another by moving on;
* `TypeParser.EndsAhead` : what holds of every reading;
* `TypeParser.endsAhead_parse`, `TypeParser.typeWith_congr` : whole readings, and the readings
  inside of brackets;
* `TypeParser.StandsAt` : a parser stands at a boundary of a text;
* `TypeParser.positions_exact` : **however often a parser is asked, its position is a boundary of
  the text and never goes back; a character that it refuses is the one at the offset that it names;
  behind a type nothing is left**.
-/

namespace TemplateContracts

/-! ### Bytes -/

theorem utf8Size_append (cs cs' : List Char) :
    utf8Size (cs ++ cs') = utf8Size cs + utf8Size cs' := by
  induction cs with
  | nil => exact (Nat.zero_add _).symm
  | cons c cs ih =>
    show c.utf8Size + utf8Size (cs ++ cs') = c.utf8Size + utf8Size cs + utf8Size cs'
    rw [ih, Nat.add_assoc]

theorem utf8Size_eq_utf8ByteSize (cs : List Char) :
    utf8Size cs = (String.ofList cs).utf8ByteSize := by
  induction cs with
  | nil => simp [utf8Size]
  | cons c cs ih =>
    show c.utf8Size + utf8Size cs = _
    rw [String.ofList_cons, String.utf8ByteSize_append, String.utf8ByteSize_singleton, ih]

namespace TypeParser

/-! ### Moving ahead -/

/-- `q` lies ahead of `p`: some more of the text is read, its bytes are counted, and some deprecated
spellings are noted behind the earlier ones. -/
def Ahead (p q : TypeParser) : Prop :=
  ∃ between noted, p.rest = between ++ q.rest ∧ q.offset = p.offset + utf8Size between ∧
    q.deprecations = p.deprecations ++ noted

theorem Ahead.refl (p : TypeParser) : p.Ahead p :=
  ⟨[], [], rfl, rfl, (List.append_nil _).symm⟩

theorem Ahead.trans {p q r : TypeParser} (h : p.Ahead q) (h' : q.Ahead r) : p.Ahead r := by
  obtain ⟨cs, ds, hrest, hoffset, hnoted⟩ := h
  obtain ⟨cs', ds', hrest', hoffset', hnoted'⟩ := h'
  refine ⟨cs ++ cs', ds ++ ds', ?_, ?_, ?_⟩
  · rw [hrest, hrest', List.append_assoc]
  · rw [hoffset', hoffset, utf8Size_append, Nat.add_assoc]
  · rw [hnoted', hnoted, List.append_assoc]

theorem Ahead.offset_le {p q : TypeParser} (h : p.Ahead q) : p.offset ≤ q.offset := by
  obtain ⟨cs, ds, -, hoffset, -⟩ := h
  omega

theorem Ahead.deprecations_isPrefix {p q : TypeParser} (h : p.Ahead q) :
    p.deprecations <+: q.deprecations := by
  obtain ⟨cs, ds, -, -, hnoted⟩ := h
  exact ⟨ds, hnoted.symm⟩

theorem ahead_advance (p : TypeParser) (n : Nat) : p.Ahead (p.advance n) :=
  ⟨p.rest.take n, [], (List.take_append_drop n p.rest).symm, rfl, (List.append_nil _).symm⟩

theorem ahead_skipBlanks (p : TypeParser) : p.Ahead p.skipBlanks := p.ahead_advance _

theorem ahead_note (p : TypeParser) (d : Deprecation) :
    p.Ahead { p with deprecations := p.deprecations ++ [d] } :=
  ⟨[], [d], rfl, rfl, rfl⟩

/-! ### What holds of every reading -/

/-- A reading that starts at `p` ends ahead of it, and a character that it finds unexpected is the
one at which it ends. -/
structure EndsAhead (p : TypeParser) (outcome : Outcome) : Prop where
  ahead : p.Ahead outcome.2
  found : ∀ c o, outcome.1 = .error (.unexpected c o) →
    outcome.2.offset = o ∧ outcome.2.rest.head? = some c

namespace EndsAhead

variable {p q : TypeParser} {outcome : Outcome}

theorem ok (h : p.Ahead q) (t : TypeExpr) : EndsAhead p (.ok t, q) :=
  ⟨h, fun _ _ hfound => nomatch hfound⟩

theorem error (h : p.Ahead q) {e : TypeSyntaxError} (he : ∀ c o, e ≠ .unexpected c o) :
    EndsAhead p (.error e, q) :=
  ⟨h, fun c o hfound => absurd (Except.error.inj hfound) (he c o)⟩

theorem unexpected (p : TypeParser) (expected : String) :
    EndsAhead p (p.unexpected expected) := by
  unfold TypeParser.unexpected
  split
  · next c cs hrest =>
    refine ⟨.refl p, fun c' o hfound => ?_⟩
    cases hfound
    exact ⟨rfl, by rw [hrest, List.head?_cons]⟩
  · exact .error (.refl p) (by simp)

/-- A reading that starts further ahead. -/
theorem behind (h : EndsAhead q outcome) (hpq : p.Ahead q) : EndsAhead p outcome :=
  ⟨hpq.trans h.ahead, h.found⟩

end EndsAhead

/-! ### The readers -/

theorem endsAhead_classNameType (p : TypeParser) : EndsAhead p p.classNameType := by
  unfold classNameType
  dsimp only
  split
  · exact .ok (p.ahead_advance _) _
  · exact .error (p.ahead_advance _) (by simp)

theorem endsAhead_closing (t : TypeExpr) (p : TypeParser) : EndsAhead p (closing t p) := by
  unfold closing
  split
  · exact .ok (p.ahead_advance 1) t
  · exact .unexpected p _

theorem endsAhead_ofWord (w : String) (p : TypeParser) : EndsAhead p (ofWord w p) := by
  unfold ofWord
  split
  · exact .ok (.refl p) _
  split
  · next d _ => exact .ok (p.ahead_note d) _
  · exact .error (.refl p) (by simp)

section
variable {inner : TypeParser → Outcome} (hinner : ∀ q, EndsAhead q (inner q))
include hinner

theorem endsAhead_generic (p : TypeParser) : EndsAhead p (generic inner p) := by
  have hfirst := (hinner p.skipBlanks).behind p.ahead_skipBlanks
  unfold generic
  split
  · next e q hread =>
    rw [hread] at hfirst
    exact hfirst
  next first q hread =>
  rw [hread] at hfirst
  have hq := hfirst.ahead.trans q.ahead_skipBlanks
  dsimp only
  split
  · have hcomma := hq.trans (q.skipBlanks.ahead_advance 1)
    split
    · have hvalue := (hinner _).behind (hcomma.trans (ahead_skipBlanks _))
      split
      · next e q' hread' =>
        rw [hread'] at hvalue
        exact hvalue
      · next value q' hread' =>
        rw [hread'] at hvalue
        exact (endsAhead_closing _ _).behind (hvalue.ahead.trans q'.ahead_skipBlanks)
    · exact .error hcomma (by simp)
  · exact (endsAhead_closing _ _).behind hq

theorem endsAhead_base (p : TypeParser) : EndsAhead p (base inner p) := by
  unfold base
  split
  · exact p.endsAhead_classNameType
  have hword := p.ahead_advance p.word.length
  dsimp only
  split
  · exact (EndsAhead.unexpected _ _).behind hword
  split
  · split
    · exact (endsAhead_generic hinner _).behind (hword.trans (ahead_advance _ 1))
    · exact (endsAhead_ofWord _ _).behind hword
  · exact (endsAhead_ofWord _ _).behind hword

theorem endsAhead_suffixed (p : TypeParser) : EndsAhead p (suffixed inner p) := by
  have hbase := endsAhead_base hinner p
  unfold suffixed
  split
  · next e q hread =>
    rw [hread] at hbase
    exact hbase
  next t q hread =>
  rw [hread] at hbase
  split
  · exact .ok (hbase.ahead.trans (q.ahead_advance 2)) _
  · exact .ok hbase.ahead _

theorem endsAhead_typeWith (p : TypeParser) : EndsAhead p (typeWith inner p) := by
  unfold typeWith
  split
  · exact .error (p.ahead_advance 1) (by simp)
  · have hsuffixed := (endsAhead_suffixed hinner _).behind (p.ahead_advance 1)
    split
    · next e q hread =>
      rw [hread] at hsuffixed
      exact hsuffixed
    · next t q hread =>
      rw [hread] at hsuffixed
      exact .ok hsuffixed.ahead _
  · exact endsAhead_suffixed hinner p

end

theorem endsAhead_typeWithin (bound : Nat) (p : TypeParser) :
    EndsAhead p (typeWithin bound p) := by
  induction bound generalizing p with
  | zero => exact .error (.refl p) (by simp)
  | succ bound ih => exact endsAhead_typeWith ih p

theorem endsAhead_reader (bound : Nat) (n : TypeGrammar.Nonterminal) (p : TypeParser) :
    EndsAhead p (reader bound n p) := by
  cases n with
  | type => exact endsAhead_typeWithin (bound + 1) p
  | suffixed => exact endsAhead_suffixed (endsAhead_typeWithin bound) p
  | base => exact endsAhead_base (endsAhead_typeWithin bound) p

theorem endsAhead_parse (p : TypeParser) : EndsAhead p p.parse := by
  have hread := (endsAhead_typeWithin (p.skipBlanks.rest.length + 1) p.skipBlanks).behind
    p.ahead_skipBlanks
  unfold parse
  dsimp only
  split
  · exact .error p.ahead_skipBlanks (by simp)
  split
  · next e q heq =>
    rw [heq] at hread
    exact hread
  next t q heq =>
  rw [heq] at hread
  have hend := hread.ahead.trans q.ahead_skipBlanks
  split
  · exact .ok hend t
  · exact (EndsAhead.unexpected _ _).behind hend

/-! ### Where the types inside of brackets are read -/

section
variable {inner inner' : TypeParser → Outcome} (hinner : ∀ q, EndsAhead q (inner q))
  {p : TypeParser} (hsame : ∀ q, p.Ahead q → inner q = inner' q)
include hinner hsame

theorem generic_congr : generic inner p = generic inner' p := by
  have hfirst := hinner p.skipBlanks
  unfold generic
  rw [← hsame _ p.ahead_skipBlanks]
  split
  · rfl
  next first q hread =>
  rw [hread] at hfirst
  have hq := (p.ahead_skipBlanks.trans hfirst.ahead).trans q.ahead_skipBlanks
  dsimp only
  split
  · rw [← hsame _ ((hq.trans (ahead_advance _ 1)).trans (ahead_skipBlanks _))]
  · rfl

theorem base_congr : base inner p = base inner' p := by
  unfold base
  split
  · rfl
  have hangle := (p.ahead_advance p.word.length).trans (ahead_advance _ 1)
  dsimp only
  rw [generic_congr hinner fun q hq => hsame q (hangle.trans hq)]

theorem suffixed_congr : suffixed inner p = suffixed inner' p := by
  rw [suffixed, suffixed, base_congr hinner hsame]

/-- A type asks for the types inside of its brackets only ahead of where it starts. -/
theorem typeWith_congr : typeWith inner p = typeWith inner' p := by
  unfold typeWith
  rw [suffixed_congr hinner hsame,
    suffixed_congr hinner fun q hq => hsame q ((p.ahead_advance 1).trans hq)]

end

/-! ### Positions of a text -/

/-- A position of a text: one ahead of its start. -/
def IsOf (p : TypeParser) (s : String) : Prop := (ofText s).Ahead p

/-- A parser stands at a boundary between characters of a text: it has counted the bytes before,
and the text from there is what is left. -/
structure StandsAt (p : TypeParser) {s : String} (pos : s.Pos) : Prop where
  offset : pos.offset.byteIdx = p.offset
  rest : (s.sliceFrom pos).copy = String.ofList p.rest

section
variable {p q : TypeParser} {s : String}

/-- The text in three parts: before a position, up to a position ahead, and behind it. -/
theorem IsOf.exists_splits (h : p.IsOf s) (hpq : p.Ahead q) :
    ∃ (before between : List Char) (pos pos' : s.Pos), p.rest = between ++ q.rest ∧
      pos.Splits (String.ofList before) (String.ofList between ++ String.ofList q.rest) ∧
      pos'.Splits (String.ofList before ++ String.ofList between) (String.ofList q.rest) ∧
      pos.offset.byteIdx = p.offset ∧ pos'.offset.byteIdx = q.offset := by
  obtain ⟨before, -, hbefore, hp, -⟩ := h
  obtain ⟨between, -, hbetween, hq, -⟩ := hpq
  have htext : s = String.ofList before ++ (String.ofList between ++ String.ofList q.rest) := by
    rw [← String.ofList_append, ← String.ofList_append, ← hbetween, ← hbefore]
    exact String.ofList_toList.symm
  have htext' : s = String.ofList before ++ String.ofList between ++ String.ofList q.rest := by
    rw [String.append_assoc]
    exact htext
  have hpos := String.Pos.splits_ofEqAppend htext
  have hpos' := String.Pos.splits_ofEqAppend htext'
  refine ⟨before, between, _, _, hbetween, hpos, hpos', ?_, ?_⟩
  · rw [hpos.offset_eq_rawEndPos, String.byteIdx_rawEndPos, ← utf8Size_eq_utf8ByteSize, hp]
    exact (Nat.zero_add _).symm
  · rw [hpos'.offset_eq_rawEndPos, String.byteIdx_rawEndPos, String.utf8ByteSize_append,
      ← utf8Size_eq_utf8ByteSize, ← utf8Size_eq_utf8ByteSize, hq, hp]
    exact congrArg (· + utf8Size between) (Nat.zero_add _).symm

/-- Between two positions of a text lies a slice of it. -/
theorem IsOf.exists_slice (h : p.IsOf s) (hpq : p.Ahead q) :
    ∃ (pos pos' : s.Pos) (hle : pos ≤ pos'), p.StandsAt pos ∧ q.StandsAt pos' ∧
      p.rest = (s.slice pos pos' hle).copy.toList ++ q.rest := by
  obtain ⟨before, between, pos, pos', hbetween, hpos, hpos', hp, hq⟩ := h.exists_splits hpq
  obtain ⟨hle, hslice⟩ := String.copy_slice_eq_iff_splits.mpr ⟨_, _, hpos, hpos'⟩
  refine ⟨pos, pos', hle, ⟨hp, ?_⟩, ⟨hq, hpos'.copy_sliceFrom_eq⟩, ?_⟩
  · rw [hpos.copy_sliceFrom_eq, ← String.ofList_append, hbetween]
  · rw [hslice, String.toList_ofList, hbetween]

theorem IsOf.offset_le (h : p.IsOf s) : p.offset ≤ s.utf8ByteSize := by
  obtain ⟨before, -, hbefore, hp, -⟩ := h
  have hsize : s.utf8ByteSize = utf8Size before + utf8Size p.rest := by
    rw [← utf8Size_append, ← hbefore, utf8Size_eq_utf8ByteSize]
    exact congrArg String.utf8ByteSize String.ofList_toList.symm
  have hstart : (ofText s).offset = 0 := rfl
  omega

theorem IsOf.offset_lt (h : p.IsOf s) {c : Char} {cs : List Char} (hrest : p.rest = c :: cs) :
    p.offset < s.utf8ByteSize := by
  have hnext : (p.advance 1).IsOf s := h.trans (p.ahead_advance 1)
  have hle := hnext.offset_le
  have hsize : (p.advance 1).offset = p.offset + (c.utf8Size + 0) := by
    rw [advance, hrest]
    rfl
  have hpos := c.utf8Size_pos
  omega

/-- The character at a position of a text. -/
theorem IsOf.exists_get (h : p.IsOf s) {c : Char} {cs : List Char} (hrest : p.rest = c :: cs) :
    ∃ (pos : s.Pos) (hne : pos ≠ s.endPos), pos.offset.byteIdx = p.offset ∧ pos.get hne = c := by
  obtain ⟨before, between, pos, -, hbetween, hpos, -, hp, -⟩ := h.exists_splits (.refl p)
  rw [← String.ofList_append, ← hbetween, hrest, String.ofList_cons] at hpos
  exact ⟨pos, hpos.ne_endPos_of_singleton, hp, hpos.next.get_eq_of_singleton⟩

end

/-! ### Asking again -/

/-- The position behind a number of calls. -/
def afterCalls (s : String) : Nat → TypeParser
  | 0 => ofText s
  | n + 1 => (afterCalls s n).parse.2

theorem isOf_afterCalls (s : String) (n : Nat) : (afterCalls s n).IsOf s := by
  induction n with
  | zero => exact .refl _
  | succ n ih => exact ih.trans (endsAhead_parse _).ahead

theorem parse_of_rest_eq_nil {p : TypeParser} (h : p.rest = []) : p.parse = (.error .empty, p) := by
  obtain ⟨rest, offset, deprecations⟩ := p
  cases h
  rfl

/-- Behind a type that is read nothing is left, and a call leaves it so. -/
theorem afterCalls_eq_of_ok {s : String} {n m : Nat} {t : TypeExpr}
    (h : (afterCalls s n).parse.1 = .ok t) (hm : n < m) :
    afterCalls s m = afterCalls s (n + 1) ∧ (afterCalls s m).parse.1 = .error .empty := by
  have hend : (afterCalls s (n + 1)).rest = [] := by
    have hparse : (afterCalls s n).parse = (.ok t, afterCalls s (n + 1)) := Prod.ext h rfl
    obtain ⟨-, -, -, hrest⟩ := of_parse_eq_ok hparse
    exact hrest
  have hstays := parse_of_rest_eq_nil hend
  have hsame : afterCalls s m = afterCalls s (n + 1) := by
    induction hm with
    | refl => rfl
    | step _ ih =>
      show (afterCalls s _).parse.2 = _
      rw [ih, hstays]
  exact ⟨hsame, by rw [hsame, hstays]⟩

/-- **The positions of a parser are exact.**  A position of a text, that is one ahead of its start,
is a boundary between characters within the text, and so is every position ahead of it, with a slice
of the text between them; moving past characters, reading a word and reading a type or a part of one
lead to positions ahead, and types inside of brackets are read at positions of the text only.
However often a parser is asked, it is at a position of the text, its offset never decreases, and
its spellings are noted behind the earlier ones.  A character that it finds unexpected is the one at
the byte offset that it names.  Once it has read a type, it does not move any more and finds
nothing. -/
theorem positions_exact (s : String) :
    (∀ p : TypeParser, p.IsOf s →
      (∃ pos : s.Pos, p.StandsAt pos) ∧ p.offset ≤ s.utf8ByteSize ∧
      (∀ q, p.Ahead q → q.IsOf s ∧
        ∃ (pos pos' : s.Pos) (hle : pos ≤ pos'), p.StandsAt pos ∧ q.StandsAt pos' ∧
          p.rest = (s.slice pos pos' hle).copy.toList ++ q.rest) ∧
      (∀ n, p.Ahead (p.advance n)) ∧ (∀ w, p.Ahead (ofWord w p).2) ∧
      (∀ bound n, p.Ahead (reader bound n p).2) ∧
      ∀ bound inner, (∀ q : TypeParser, q.IsOf s → inner q = typeWithin bound q) →
        typeWith inner p = typeWithin (bound + 1) p) ∧
    ∀ n, (afterCalls s n).IsOf s ∧
      (afterCalls s n).offset ≤ (afterCalls s (n + 1)).offset ∧
      (afterCalls s n).deprecations <+: (afterCalls s (n + 1)).deprecations ∧
      (∀ c o, (afterCalls s n).parse.1 = .error (.unexpected c o) → o < s.utf8ByteSize ∧
        ∃ (pos : s.Pos) (hne : pos ≠ s.endPos), pos.offset.byteIdx = o ∧ pos.get hne = c) ∧
      ∀ t, (afterCalls s n).parse.1 = .ok t → ∀ m, n < m →
        afterCalls s m = afterCalls s (n + 1) ∧ (afterCalls s m).parse.1 = .error .empty := by
  constructor
  · intro p hp
    obtain ⟨pos, -, -, hpos, -, -⟩ := hp.exists_slice (.refl p)
    refine ⟨⟨pos, hpos⟩, hp.offset_le, fun q hpq => ⟨hp.trans hpq, hp.exists_slice hpq⟩,
      p.ahead_advance, fun w => (endsAhead_ofWord w p).ahead,
      fun bound n => (endsAhead_reader bound n p).ahead, ?_⟩
    intro bound inner hinner
    exact (typeWith_congr (endsAhead_typeWithin bound)
      fun q hq => (hinner q (hp.trans hq)).symm).symm
  · intro n
    have hn := isOf_afterCalls s n
    have hread := endsAhead_parse (afterCalls s n)
    refine ⟨hn, hread.ahead.offset_le, hread.ahead.deprecations_isPrefix, ?_,
      fun t ht m hm => afterCalls_eq_of_ok ht hm⟩
    intro c o hfound
    obtain ⟨rfl, hc⟩ := hread.found c o hfound
    obtain ⟨cs, hrest⟩ := List.head?_eq_some_iff.mp hc
    have hend : (afterCalls s n).parse.2.IsOf s := hn.trans hread.ahead
    exact ⟨hend.offset_lt hrest, hend.exists_get hrest⟩

end TypeParser

end TemplateContracts
