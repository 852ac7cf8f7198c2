import TemplateContracts.Proofs.NumberText

/-!
# JSON text is read back

The compact text of a value is read as that value, if nothing in the value is beyond the text: no
part without a value, no integer beyond sixty-four bits, no double whose digits do not read back,
and no more brackets open at once than a reader allows.

* `Json.Readable` : the values whose text can be read;
* `Json.ReadsIn` : the text of a value is read as the value wherever it stands.  The reader is given
  room for the brackets of the value and more fuel than the text is long;
* `Json.parse?_compact` : **the compact text of a readable value is read as that value**.
-/

namespace TemplateContracts.Json

/-- The values whose text can be read. -/
inductive Readable : Json → Prop where
  | null : Readable .null
  | bool (b : Bool) : Readable (.bool b)
  | int {i : Int} : Int64.minValue.toInt ≤ i → i < UInt64.size → Readable (.number (.int i))
  | float {x : Binary64} : x.isFinite = true → x.ReadsBack → Readable (.number (.float x))
  | string (s : String) : Readable (.string s)
  | array {items : List Json} : (∀ j ∈ items, Readable j) → Readable (.array items)
  | object {members : List (String × Json)} :
      (∀ m ∈ members, Readable m.2) → Readable (.object members)

/-! ### Strings -/

theorem scanString_unit {n : Nat} (hn : n < 32) (more : List Char) :
    scanString none ('\\' :: 'u' :: '0' :: '0' :: hexDigit (n / 16) :: hexDigit (n % 16) :: more)
      = (scanString none more).map fun p => (p.1.map (Char.ofNat n :: ·), p.2) := by
  have hhex : hex4? '0' '0' (hexDigit (n / 16)) (hexDigit (n % 16)) = some n := by
    revert n
    decide
  have hhigh : isHighSurrogate n = false := by
    rw [isHighSurrogate, Bool.and_eq_false_iff]
    exact .inl (decide_eq_false (by omega))
  have hlow : isLowSurrogate n = false := by
    rw [isLowSurrogate, Bool.and_eq_false_iff]
    exact .inl (decide_eq_false (by omega))
  rw [scanString, hhex]
  simp only [waitingAfter, emitUnit, hhigh, hlow, Bool.false_and, Bool.false_eq_true, if_false]

theorem scanString_plain {c : Char} (hquote : c ≠ '"') (hslash : c ≠ '\\') (hlow : ¬c.toNat < 32)
    (more : List Char) :
    scanString none (c :: more) = (scanString none more).map fun p => (p.1.map (c :: ·), p.2) := by
  rw [scanString.eq_def]
  split
  · next heq => cases heq; exact absurd rfl hquote
  · next heq => cases heq; exact absurd rfl hslash
  · next heq => cases heq; exact absurd rfl hslash
  · next heq =>
    cases heq
    rw [if_neg (fun h => h.elim hslash hlow)]
    rfl
  · next heq => cases heq

/-- A character inside a string is read as itself. -/
theorem scanString_escape (c : Char) (more : List Char) :
    scanString none (escape c ++ more)
      = (scanString none more).map fun p => (p.1.map (c :: ·), p.2) := by
  have hchar : ∀ n, c.toNat = n → c = Char.ofNat n := fun n hn => by rw [← hn, Char.ofNat_toNat]
  unfold escape
  split_ifs with h1 h2 h3 h4 h5 h6 h7 h8
  · rw [h1]; rfl
  · rw [h2]; rfl
  · rw [hchar 8 h3]; rfl
  · rw [hchar 9 h4]; rfl
  · rw [hchar 10 h5]; rfl
  · rw [hchar 12 h6]; rfl
  · rw [hchar 13 h7]; rfl
  · have hunit := scanString_unit h8 more
    rw [Char.ofNat_toNat] at hunit
    exact hunit
  · exact scanString_plain h1 h2 h8 more

/-- A string in quotes, behind its opening quote. -/
theorem scanString_escaped (cs more : List Char) :
    scanString none (cs.flatMap escape ++ '"' :: more) = some (some cs, more) := by
  induction cs with
  | nil => rfl
  | cons c cs ih =>
    rw [List.flatMap_cons, List.append_assoc, scanString_escape, ih]
    rfl

theorem quote_append (s : String) (more : List Char) :
    quote s ++ more = '"' :: (s.toList.flatMap escape ++ '"' :: more) := by
  simp only [quote, List.cons_append, List.append_assoc, List.nil_append]

/-! ### Steps of the reader

What each reader does behind the first character of what it reads. -/

theorem parseValue_quote (fuel room : Nat) (cs : List Char) :
    parseValue (fuel + 1) room ('"' :: cs)
      = (scanString none cs).map fun p => (ofContent p.1, p.2) := rfl

theorem parseValue_items {c : Char} (hspace : isSpace c = false) (hc : c ≠ ']') (fuel room : Nat)
    (cs : List Char) :
    parseValue (fuel + 1) room ('[' :: c :: cs)
      = (parseItems fuel (room - 1) (c :: cs)).map fun p =>
          (enclose room (.array p.1), p.2) := by
  have hopen : skipSpace ('[' :: c :: cs) = '[' :: c :: cs := skipSpace_cons (by decide) _
  rw [parseValue, hopen]
  split
  case h_5 rest heq =>
    cases heq
    rw [skipSpace_cons hspace]
    split
    · next heq => cases heq; exact absurd rfl hc
    · rfl
  -- no other text starts with a bracket
  all_goals simp_all

theorem parseValue_members (fuel room : Nat) (cs : List Char) :
    parseValue (fuel + 1) room ('\x7b' :: '"' :: cs)
      = (parseMembers fuel (room - 1) ('"' :: cs)).map fun p =>
          (enclose room (ofMembers p.1), p.2) := rfl

theorem parseItems_last {fuel room : Nat} {cs rest : List Char} {j : Json}
    (h : parseValue fuel room cs = some (j, ']' :: rest)) :
    parseItems (fuel + 1) room cs = some ([j], rest) := by
  rw [parseItems, h]
  rfl

theorem parseItems_next {fuel room : Nat} {cs rest : List Char} {j : Json}
    (h : parseValue fuel room cs = some (j, ',' :: rest)) :
    parseItems (fuel + 1) room cs
      = (parseItems fuel room rest).map fun p => (j :: p.1, p.2) := by
  rw [parseItems, h]
  rfl

theorem parseMembers_last {fuel room : Nat} {cs rest more : List Char} {key : String} {j : Json}
    (hkey : scanString none cs = some (some key.toList, ':' :: rest))
    (h : parseValue fuel room rest = some (j, '\x7d' :: more)) :
    parseMembers (fuel + 1) room ('"' :: cs) = some (some [(key, j)], more) := by
  have hcolon : skipSpace (':' :: rest) = ':' :: rest := skipSpace_cons rfl rest
  have hbrace : skipSpace ('\x7d' :: more) = '\x7d' :: more := skipSpace_cons rfl more
  rw [parseMembers, skipSpace_cons rfl]
  simp only [hkey, hcolon, h, hbrace, Option.map_some, String.ofList_toList]

theorem parseMembers_next {fuel room : Nat} {cs rest behind more : List Char} {key : String}
    {j : Json} {ms : List (String × Json)}
    (hkey : scanString none cs = some (some key.toList, ':' :: rest))
    (h : parseValue fuel room rest = some (j, ',' :: behind))
    (hms : parseMembers fuel room behind = some (some ms, more)) :
    parseMembers (fuel + 1) room ('"' :: cs) = some (some ((key, j) :: ms), more) := by
  have hcolon : skipSpace (':' :: rest) = ':' :: rest := skipSpace_cons rfl rest
  have hcomma : skipSpace (',' :: behind) = ',' :: behind := skipSpace_cons rfl behind
  rw [parseMembers, skipSpace_cons rfl]
  simp only [hkey, hcolon, h, hcomma, hms, Option.map_some, String.ofList_toList]

/-! ### Values -/

/-- The text of a value is read as the value, wherever it stands. -/
def ReadsIn (j : Json) : Prop :=
  ∀ (fuel room : Nat) (more : List Char), (chars j).length < fuel → j.depth ≤ room → Stops more →
    parseValue fuel room (chars j ++ more) = some (j, more)

/-- A value starts with a character that is neither white space nor a closing bracket. -/
theorem Readable.chars_start {j : Json} (h : j.Readable) :
    ∃ c cs, chars j = c :: cs ∧ isSpace c = false ∧ c ≠ ']' := by
  have hnumber : ∀ {c : Char}, startsNumber c = true → isSpace c = false ∧ c ≠ ']' := by
    intro c hc
    refine ⟨isSpace_of_startsNumber hc, ?_⟩
    rintro rfl
    cases hc
  cases h with
  | null => exact ⟨'n', _, rfl, rfl, by decide⟩
  | bool b => cases b <;> exact ⟨_, _, rfl, rfl, by decide⟩
  | @int i _ _ =>
    obtain ⟨c, cs, htext, hc⟩ := intText_start i
    exact ⟨c, cs, htext, hnumber hc⟩
  | float hx _ =>
    obtain ⟨c, cs, htext, hc⟩ := text_start hx
    exact ⟨c, cs, htext, hnumber hc⟩
  | string s => exact ⟨'"', _, rfl, rfl, by decide⟩
  | @array items _ => cases items <;> exact ⟨'[', _, rfl, rfl, by decide⟩
  | @object members _ => cases members <;> exact ⟨'\x7b', _, rfl, rfl, by decide⟩

theorem readsIn_number {n : Number} (hstart : ∃ c cs, n.text = c :: cs ∧ startsNumber c = true)
    (hscan : ∀ {more : List Char}, Stops more →
      ∃ l, scanNumber (n.text ++ more) = some (l, more) ∧ l.number? = some n) :
    ReadsIn (.number n) := by
  intro fuel room more hf _ hm
  obtain ⟨fuel, rfl⟩ : ∃ k, fuel = k + 1 := ⟨fuel - 1, by omega⟩
  obtain ⟨c, cs, htext, hc⟩ := hstart
  obtain ⟨l, hl, hn⟩ := hscan hm
  rw [chars, htext, List.cons_append, parseValue_number hc, ← List.cons_append, ← htext, hl]
  simp only [Option.map_some, ofLiteral, hn]

theorem readsIn_string (s : String) : ReadsIn (.string s) := by
  intro fuel room more hf _ _
  obtain ⟨fuel, rfl⟩ : ∃ k, fuel = k + 1 := ⟨fuel - 1, by omega⟩
  rw [chars, quote_append, parseValue_quote, scanString_escaped, Option.map_some, ofContent,
    String.ofList_toList]

/-- The items of an array, behind its opening bracket. -/
theorem parseItems_chars {j : Json} {rest : List Json} (h : ∀ k ∈ j :: rest, ReadsIn k)
    {fuel room : Nat} (hf : (chars j ++ itemsChars rest).length < fuel)
    (hd : itemsDepth (j :: rest) ≤ room) (more : List Char) :
    parseItems fuel room (chars j ++ (itemsChars rest ++ more)) = some (j :: rest, more) := by
  induction rest generalizing j fuel with
  | nil =>
    rw [itemsChars, List.length_append, List.length_singleton] at hf
    rw [itemsDepth] at hd
    obtain ⟨fuel, rfl⟩ : ∃ k, fuel = k + 1 := ⟨fuel - 1, by omega⟩
    exact parseItems_last (h j List.mem_cons_self fuel room (']' :: more) (by omega) (by omega)
      (stops_cons (by decide) more))
  | cons k rest ih =>
    rw [itemsChars, List.length_append, List.length_cons] at hf
    rw [itemsDepth] at hd
    obtain ⟨fuel, rfl⟩ : ∃ k, fuel = k + 1 := ⟨fuel - 1, by omega⟩
    rw [itemsChars, List.cons_append, List.append_assoc]
    have hfirst := h j List.mem_cons_self fuel room
      (',' :: (chars k ++ (itemsChars rest ++ more))) (by omega) (by omega)
      (stops_cons (by decide) _)
    have hrest := ih (fun l hl => h l (List.mem_cons_of_mem j hl)) (show _ < fuel by omega)
      (by omega)
    rw [parseItems_next hfirst, hrest]
    rfl

/-- The members of an object, behind its opening brace. -/
theorem parseMembers_chars {key : String} {j : Json} {rest : List (String × Json)}
    (h : ∀ m ∈ (key, j) :: rest, ReadsIn m.2) {fuel room : Nat}
    (hf : (quote key ++ ':' :: (chars j ++ membersChars rest)).length < fuel)
    (hd : membersDepth ((key, j) :: rest) ≤ room) (more : List Char) :
    parseMembers fuel room (quote key ++ ':' :: (chars j ++ (membersChars rest ++ more)))
      = some (some ((key, j) :: rest), more) := by
  induction rest generalizing key j fuel with
  | nil =>
    rw [membersChars, List.length_append, List.length_cons, List.length_append,
      List.length_singleton] at hf
    rw [membersDepth] at hd
    obtain ⟨fuel, rfl⟩ : ∃ k, fuel = k + 1 := ⟨fuel - 1, by omega⟩
    have hvalue := h _ List.mem_cons_self fuel room ('\x7d' :: more)
      (show (chars j).length < fuel by omega) (show depth j ≤ room by omega)
      (stops_cons (by decide) more)
    rw [quote_append]
    exact parseMembers_last (scanString_escaped _ _) hvalue
  | cons m rest ih =>
    obtain ⟨key', k⟩ := m
    rw [membersChars, List.length_append, List.length_cons, List.length_append,
      List.length_cons] at hf
    rw [membersDepth] at hd
    obtain ⟨fuel, rfl⟩ : ∃ k, fuel = k + 1 := ⟨fuel - 1, by omega⟩
    have hvalue := h _ List.mem_cons_self fuel room
      (',' :: (quote key' ++ ':' :: (chars k ++ (membersChars rest ++ more))))
      (show (chars j).length < fuel by omega) (show depth j ≤ room by omega)
      (stops_cons (by decide) _)
    have hrest := ih (fun l hl => h l (List.mem_cons_of_mem _ hl)) (show _ < fuel by omega)
      (show membersDepth ((key', k) :: rest) ≤ room by omega)
    have htail : membersChars ((key', k) :: rest) ++ more
        = ',' :: (quote key' ++ ':' :: (chars k ++ (membersChars rest ++ more))) := by
      simp only [membersChars, List.cons_append, List.append_assoc]
    rw [htail, quote_append]
    exact parseMembers_next (scanString_escaped _ _) hvalue hrest

theorem readsIn_array {items : List Json} (hitems : ∀ j ∈ items, Readable j)
    (h : ∀ j ∈ items, ReadsIn j) : ReadsIn (.array items) := by
  intro fuel room more hf hd _
  obtain ⟨fuel, rfl⟩ : ∃ k, fuel = k + 1 := ⟨fuel - 1, by omega⟩
  rw [depth] at hd
  have hroom : room ≠ 0 := by omega
  cases items with
  | nil =>
    show some (enclose room (.array []), more) = _
    rw [enclose, if_neg hroom]
  | cons j rest =>
    obtain ⟨c, cs, hchars, hspace, hc⟩ := (hitems j List.mem_cons_self).chars_start
    rw [chars, List.length_cons] at hf
    have hparsed := parseItems_chars h (show _ < fuel by omega) (show _ ≤ room - 1 by omega) more
    rw [chars, List.cons_append, List.append_assoc]
    rw [hchars, List.cons_append] at hparsed ⊢
    rw [parseValue_items hspace hc, hparsed]
    simp only [Option.map_some, enclose, if_neg hroom]

theorem readsIn_object {members : List (String × Json)} (h : ∀ m ∈ members, ReadsIn m.2) :
    ReadsIn (.object members) := by
  intro fuel room more hf hd _
  obtain ⟨fuel, rfl⟩ : ∃ k, fuel = k + 1 := ⟨fuel - 1, by omega⟩
  rw [depth] at hd
  have hroom : room ≠ 0 := by omega
  cases members with
  | nil =>
    show some (enclose room (.object []), more) = _
    rw [enclose, if_neg hroom]
  | cons m rest =>
    obtain ⟨key, j⟩ := m
    rw [chars, List.length_cons] at hf
    have hparsed := parseMembers_chars h (show _ < fuel by omega) (show _ ≤ room - 1 by omega) more
    have htext : chars (.object ((key, j) :: rest)) ++ more
        = '\x7b' :: (quote key ++ ':' :: (chars j ++ (membersChars rest ++ more))) := by
      simp only [chars, List.cons_append, List.append_assoc]
    rw [htext, quote_append, parseValue_members, ← quote_append, hparsed]
    simp only [Option.map_some, enclose, if_neg hroom, ofMembers]

/-- The text of a readable value is read as the value, wherever it stands. -/
theorem Readable.readsIn {j : Json} (h : j.Readable) : ReadsIn j := by
  induction h with
  | null =>
    intro fuel room more hf _ _
    obtain ⟨fuel, rfl⟩ : ∃ k, fuel = k + 1 := ⟨fuel - 1, by omega⟩
    rfl
  | bool b =>
    intro fuel room more hf _ _
    obtain ⟨fuel, rfl⟩ : ∃ k, fuel = k + 1 := ⟨fuel - 1, by omega⟩
    cases b <;> rfl
  | @int i hlow hhigh =>
    exact readsIn_number (intText_start i) fun hm =>
      ⟨Literal.ofInt i, scanNumber_intText i hm, Literal.number?_ofInt hlow hhigh⟩
  | float hx hback => exact readsIn_number (text_start hx) (scanNumber_text hx hback)
  | string s => exact readsIn_string s
  | array hitems ih => exact readsIn_array hitems ih
  | object _ ih => exact readsIn_object ih

/-- **The compact text of a readable value is read as that value.** -/
theorem parse?_compact {j : Json} (h : j.Readable) (hd : j.depth ≤ maxDepth) :
    parse? j.compact = some j := by
  have hread := h.readsIn (2 * (chars j).length + 2) maxDepth [] (by omega) hd stops_nil
  rw [List.append_nil] at hread
  unfold parse? compact
  dsimp only
  rw [String.toList_ofList, hread]
  rfl

end TemplateContracts.Json
