import TemplateContracts.TypeExpr.Parser

/-!
# The grammar of declared types

    type     := '?'? suffixed
    suffixed := base '[]'?
    base     := keyword | deprecated spelling | class name
              | 'iterable<' type '>' | 'iterable<' key ',' type '>'

A `Derivation` is a tree of this grammar, one constructor for each production.  What the grammar
leaves open is part of the tree: which blanks stand behind `<`, around `,` and before `>`, and which
words make up a class name.  So a derivation says everything about its text, and that a text has one
derivation only is a statement about equality of trees.

* `Derivation.text`, `Derivation.tree`, `Derivation.spellings` : the text that a derivation spells,
  the type that it stands for and the deprecated spellings in it, from left to right;
* `Sentence` : a derivation of a type with blanks around it;
* `Starts`, `Follow` : with what a text of the grammar can start, and what may stand behind one so
  that it is clear where the text ends;
* `KeyWord.derivation` : a key is a type of its own, which is how it is read.
-/

namespace TemplateContracts.TypeGrammar

/-! ### Lexical parts -/

/-- Any number of blanks. -/
@[ext] structure Blanks where
  chars : List Char
  blank : ∀ c ∈ chars, Text.isBlank c = true

/-- A word of a class name: letters, digits and underscores, at least one and no digit first. -/
@[ext] structure ClassWord where
  chars : List Char
  ne_nil : chars ≠ []
  word : ∀ c ∈ chars, c.isAlphanum = true ∨ c = '_'
  start : ∀ c ∈ chars.head?, c.isDigit = false

/-- The deprecated spellings of basic types. -/
inductive OldWord where
  | bool
  | int
  | float
  deriving DecidableEq

def OldWord.deprecation : OldWord → Deprecation
  | bool => ⟨"bool", .boolean⟩
  | int => ⟨"int", .number⟩
  | float => ⟨"float", .number⟩

/-- The types that a key can have, as written. -/
inductive KeyWord where
  | string
  | number
  | int
  | float
  deriving DecidableEq

namespace KeyWord

def text : KeyWord → List Char
  | string => "string".toList
  | number => "number".toList
  | int => "int".toList
  | float => "float".toList

def type : KeyWord → BasicType
  | string => .string
  | number | int | float => .number

def spellings : KeyWord → List Deprecation
  | string | number => []
  | int => [OldWord.int.deprecation]
  | float => [OldWord.float.deprecation]

end KeyWord

/-- Words with a backslash before each. -/
def classText (words : List ClassWord) : List Char := words.flatMap fun w => '\\' :: w.chars

/-! ### Derivations -/

inductive Nonterminal where
  | type
  | suffixed
  | base
  deriving DecidableEq

/-- A derivation of a text, production by production. -/
inductive Derivation : Nonterminal → Type where
  | plain (d : Derivation .suffixed) : Derivation .type
  | nullable (d : Derivation .suffixed) : Derivation .type
  | single (d : Derivation .base) : Derivation .suffixed
  | array (d : Derivation .base) : Derivation .suffixed
  /-- A keyword; `iterable` without brackets is one. -/
  | keyword (b : BasicType) : Derivation .base
  | deprecated (w : OldWord) : Derivation .base
  | iterableOf (opening : Blanks) (value : Derivation .type) (closing : Blanks) : Derivation .base
  | keyedIterable (opening : Blanks) (key : KeyWord) (before after : Blanks)
      (value : Derivation .type) (closing : Blanks) : Derivation .base
  | className (first : ClassWord) (more : List ClassWord) : Derivation .base

namespace Derivation

/-- The text of a derivation. -/
def text : {n : Nonterminal} → Derivation n → List Char
  | _, plain d => d.text
  | _, nullable d => '?' :: d.text
  | _, single d => d.text
  | _, array d => d.text ++ ['[', ']']
  | _, keyword b => b.keyword.toList
  | _, deprecated w => w.deprecation.spelling.toList
  | _, iterableOf opening value closing =>
    "iterable".toList ++ ['<'] ++ opening.chars ++ value.text ++ closing.chars ++ ['>']
  | _, keyedIterable opening key before after value closing =>
    "iterable".toList ++ ['<'] ++ opening.chars ++ key.text ++ before.chars ++ [','] ++
      after.chars ++ value.text ++ closing.chars ++ ['>']
  | _, className first more => classText (first :: more)

theorem text_array_append (d : Derivation .base) (r : List Char) :
    (array d).text ++ r = d.text ++ ('[' :: ']' :: r) := by
  show d.text ++ ['[', ']'] ++ r = _
  simp only [List.append_assoc, List.cons_append, List.nil_append]

theorem text_iterableOf (opening : Blanks) (value : Derivation .type) (closing : Blanks) :
    (iterableOf opening value closing).text
      = "iterable".toList ++
        ('<' :: (opening.chars ++ (value.text ++ (closing.chars ++ ['>'])))) := by
  show "iterable".toList ++ ['<'] ++ opening.chars ++ value.text ++ closing.chars ++ ['>'] = _
  simp only [List.append_assoc, List.cons_append, List.nil_append]

theorem text_keyedIterable (opening : Blanks) (key : KeyWord) (before after : Blanks)
    (value : Derivation .type) (closing : Blanks) :
    (keyedIterable opening key before after value closing).text
      = "iterable".toList ++ ('<' :: (opening.chars ++ (key.text ++ (before.chars ++
        (',' :: (after.chars ++ (value.text ++ (closing.chars ++ ['>'])))))))) := by
  show "iterable".toList ++ ['<'] ++ opening.chars ++ key.text ++ before.chars ++ [','] ++
    after.chars ++ value.text ++ closing.chars ++ ['>'] = _
  simp only [List.append_assoc, List.cons_append, List.nil_append]

theorem text_iterableOf_append (opening : Blanks) (value : Derivation .type) (closing : Blanks)
    (r : List Char) :
    (iterableOf opening value closing).text ++ r
      = "iterable".toList ++
        ('<' :: (opening.chars ++ (value.text ++ (closing.chars ++ ('>' :: r))))) := by
  rw [text_iterableOf]
  simp only [List.append_assoc, List.cons_append, List.nil_append]

theorem text_keyedIterable_append (opening : Blanks) (key : KeyWord) (before after : Blanks)
    (value : Derivation .type) (closing : Blanks) (r : List Char) :
    (keyedIterable opening key before after value closing).text ++ r
      = "iterable".toList ++ ('<' :: (opening.chars ++ (key.text ++ (before.chars ++
        (',' :: (after.chars ++ (value.text ++ (closing.chars ++ ('>' :: r))))))))) := by
  rw [text_keyedIterable]
  simp only [List.append_assoc, List.cons_append, List.nil_append]

/-- The type of a derivation.  A class loses its leading backslash. -/
def tree : {n : Nonterminal} → Derivation n → TypeExpr
  | _, plain d => d.tree
  | _, nullable d => .nullable d.tree
  | _, single d => d.tree
  | _, array d => .iterableOf d.tree
  | _, keyword b => .basic b
  | _, deprecated w => .basic w.deprecation.replacement
  | _, iterableOf _ value _ => .iterableOf value.tree
  | _, keyedIterable _ key _ _ value _ => .keyedIterable (.basic key.type) value.tree
  | _, className first more => .classRef (String.ofList (first.chars ++ classText more))

/-- The deprecated spellings of a derivation, from left to right. -/
def spellings : {n : Nonterminal} → Derivation n → List Deprecation
  | _, plain d => d.spellings
  | _, nullable d => d.spellings
  | _, single d => d.spellings
  | _, array d => d.spellings
  | _, keyword _ => []
  | _, deprecated w => [w.deprecation]
  | _, iterableOf _ value _ => value.spellings
  | _, keyedIterable _ key _ _ value _ => key.spellings ++ value.spellings
  | _, className _ _ => []

/-- How deep the brackets of a derivation nest. -/
def depth : {n : Nonterminal} → Derivation n → Nat
  | _, plain d => d.depth
  | _, nullable d => d.depth
  | _, single d => d.depth
  | _, array d => d.depth
  | _, iterableOf _ value _ => value.depth + 1
  | _, keyedIterable _ _ _ _ value _ => value.depth + 1
  | _, _ => 0

end Derivation

/-- A type with blanks around it. -/
structure Sentence where
  before : Blanks
  type : Derivation .type
  behind : Blanks

/-- The text of a sentence. -/
def Sentence.text (s : Sentence) : List Char := s.before.chars ++ s.type.text ++ s.behind.chars

/-! ### How texts start -/

open TypeParser (isWordChar isKeyType)

/-- A character with which the text of a nonterminal can start. -/
def Starts (n : Nonterminal) (c : Char) : Prop :=
  isWordChar c = true ∨ c = '\\' ∨ n = .type ∧ c = '?'

theorem isWordChar_iff {c : Char} : isWordChar c = true ↔ c.isAlphanum = true ∨ c = '_' := by
  rw [isWordChar, Bool.or_eq_true, beq_iff_eq]

theorem ClassWord.isWordChar_of_mem (w : ClassWord) : ∀ c ∈ w.chars, isWordChar c = true :=
  fun c hc => isWordChar_iff.mpr (w.word c hc)

theorem keyword_isWordChar (b : BasicType) : ∀ c ∈ b.keyword.toList, isWordChar c = true :=
  List.all_eq_true.mp (by cases b <;> decide)

theorem OldWord.isWordChar_of_mem (w : OldWord) :
    ∀ c ∈ w.deprecation.spelling.toList, isWordChar c = true :=
  List.all_eq_true.mp (by cases w <;> decide)

theorem KeyWord.isWordChar_of_mem (k : KeyWord) : ∀ c ∈ k.text, isWordChar c = true :=
  List.all_eq_true.mp (by cases k <;> decide)

/-- A text that starts with a word starts with one of its characters. -/
theorem exists_cons_of_word {w : List Char} (hne : w ≠ []) (hw : ∀ c ∈ w, isWordChar c = true)
    (n : Nonterminal) (r : List Char) : ∃ c cs, w ++ r = c :: cs ∧ Starts n c := by
  obtain ⟨c, cs, rfl⟩ := List.exists_cons_of_ne_nil hne
  exact ⟨c, cs ++ r, rfl, .inl (hw c List.mem_cons_self)⟩

theorem Starts.of_ne_type {n : Nonterminal} {c : Char} (h : Starts n c) (hn : n ≠ .type)
    (m : Nonterminal) : Starts m c := by
  rcases h with h | h | ⟨h, -⟩
  · exact .inl h
  · exact .inr (.inl h)
  · exact absurd h hn

theorem Derivation.exists_text_eq_cons {n : Nonterminal} (d : Derivation n) :
    ∃ c cs, d.text = c :: cs ∧ Starts n c := by
  have hiterable : ∀ r, ∃ c cs, "iterable".toList ++ r = c :: cs ∧ Starts .base c :=
    exists_cons_of_word (by decide) (keyword_isWordChar .iterable) .base
  induction d with
  | plain d ih =>
    obtain ⟨c, cs, htext, hstart⟩ := ih
    exact ⟨c, cs, htext, hstart.of_ne_type (by decide) _⟩
  | nullable d ih => exact ⟨'?', d.text, rfl, .inr (.inr ⟨rfl, rfl⟩)⟩
  | single d ih =>
    obtain ⟨c, cs, htext, hstart⟩ := ih
    exact ⟨c, cs, htext, hstart.of_ne_type (by decide) _⟩
  | array d ih =>
    obtain ⟨c, cs, htext, hstart⟩ := ih
    refine ⟨c, cs ++ ['[', ']'], ?_, hstart.of_ne_type (by decide) _⟩
    show d.text ++ ['[', ']'] = _
    rw [htext, List.cons_append]
  | keyword b =>
    have hne : b.keyword.toList ≠ [] := by cases b <;> decide
    have hword := exists_cons_of_word hne (keyword_isWordChar b) .base []
    rwa [List.append_nil] at hword
  | deprecated w =>
    have hne : w.deprecation.spelling.toList ≠ [] := by cases w <;> decide
    have hword := exists_cons_of_word hne w.isWordChar_of_mem .base []
    rwa [List.append_nil] at hword
  | iterableOf opening value closing ih =>
    rw [text_iterableOf]
    exact hiterable _
  | keyedIterable opening key before after value closing ih =>
    rw [text_keyedIterable]
    exact hiterable _
  | className first more => exact ⟨'\\', first.chars ++ classText more, rfl, .inr (.inl rfl)⟩

theorem isWordChar_of_isBlank {c : Char} (h : Text.isBlank c = true) : isWordChar c = false :=
  Text.forall_of_isBlank (P := fun c => isWordChar c = false) (by decide) h

theorem not_isBlank_of_starts {n : Nonterminal} {c : Char} (h : Starts n c) :
    Text.isBlank c = false := by
  rw [← Bool.not_eq_true]
  intro hblank
  rcases h with h | rfl | ⟨-, rfl⟩
  · rw [isWordChar_of_isBlank hblank] at h
    cases h
  · revert hblank; decide
  · revert hblank; decide

/-! ### What may follow -/

/-- What cannot go on a word, a class name or `iterable`. -/
def Stops (r : List Char) : Prop := ∀ c ∈ r.head?, isWordChar c = false ∧ c ≠ '\\' ∧ c ≠ '<'

/-- A comma, a closing bracket or the end. -/
def Ends (r : List Char) : Prop := ∀ c ∈ r.head?, c = ',' ∨ c = '>'

/-- What follows a type: the end, a blank, a comma or a closing bracket. -/
def Closes (r : List Char) : Prop := ∀ c ∈ r.head?, Text.isBlank c = true ∨ c = ',' ∨ c = '>'

/-- What may follow the text of a nonterminal. -/
def Follow : Nonterminal → List Char → Prop
  | .base => Stops
  | .suffixed | .type => Closes

theorem Ends.closes {r : List Char} (h : Ends r) : Closes r := fun c hc => .inr (h c hc)

theorem Blanks.closes_append (b : Blanks) {r : List Char} (hr : Ends r) :
    Closes (b.chars ++ r) := by
  intro c hc
  cases hb : b.chars with
  | nil => exact hr.closes c (by rwa [hb] at hc)
  | cons c' cs =>
    rw [hb] at hc
    obtain rfl : c' = c := by simpa using hc
    exact .inl (b.blank c' (by rw [hb]; exact List.mem_cons_self))

theorem Stops.not_word {r : List Char} (h : Stops r) : ∀ c ∈ r.head?, isWordChar c = false :=
  fun c hc => (h c hc).1

theorem Stops.not_angle {r : List Char} (h : Stops r) {P : Prop} : ¬ (r.head? = some '<' ∧ P) :=
  fun hangle => (h '<' hangle.1).2.2 rfl

theorem Closes.stops {r : List Char} (h : Closes r) : Stops r := by
  intro c hc
  rcases h c hc with h | rfl | rfl
  · exact ⟨isWordChar_of_isBlank h,
      Text.forall_of_isBlank (P := fun c => c ≠ '\\' ∧ c ≠ '<') (by decide) h⟩
  · decide
  · decide

theorem Closes.ne_bracket {r : List Char} (h : Closes r) : ∀ c ∈ r.head?, c ≠ '[' := by
  intro c hc
  rcases h c hc with h | rfl | rfl
  · exact Text.forall_of_isBlank (P := fun c => c ≠ '[') (by decide) h
  · decide
  · decide

/-- Nothing that a jump over blanks would take. -/
def NoBlank (r : List Char) : Prop := ∀ c ∈ r.head?, Text.isBlank c = false

theorem Ends.noBlank {r : List Char} (h : Ends r) : NoBlank r := by
  intro c hc
  rcases h c hc with rfl | rfl <;> decide

theorem stops_brackets (r : List Char) : Stops ('[' :: ']' :: r) := by
  intro c hc
  cases hc
  decide

theorem ends_nil : Ends [] := by simp [Ends]

theorem ends_comma (r : List Char) : Ends (',' :: r) := by simp [Ends]

theorem ends_bracket (r : List Char) : Ends ('>' :: r) := by simp [Ends]

theorem Derivation.starts_append {n : Nonterminal} (d : Derivation n) (r : List Char) :
    ∀ c ∈ (d.text ++ r).head?, Starts n c := by
  obtain ⟨c, cs, htext, hstart⟩ := d.exists_text_eq_cons
  intro c' hc'
  rw [htext] at hc'
  obtain rfl : c = c' := by simpa using hc'
  exact hstart

theorem Derivation.noBlank_append {n : Nonterminal} (d : Derivation n) (r : List Char) :
    NoBlank (d.text ++ r) := fun c hc => not_isBlank_of_starts (d.starts_append r c hc)

theorem Starts.ne_question {n : Nonterminal} {c : Char} (h : Starts n c) (hn : n ≠ .type) :
    c ≠ '?' := by
  rintro rfl
  rcases h with h | h | ⟨h, -⟩
  · exact absurd h (by decide)
  · exact absurd h (by decide)
  · exact hn h

/-! ### Keys as types -/

/-- A key by itself. -/
def KeyWord.derivation : KeyWord → Derivation .type
  | string => .plain (.single (.keyword .string))
  | number => .plain (.single (.keyword .number))
  | int => .plain (.single (.deprecated .int))
  | float => .plain (.single (.deprecated .float))

theorem KeyWord.text_derivation (k : KeyWord) : k.derivation.text = k.text := by
  cases k <;> rfl

theorem KeyWord.tree_derivation (k : KeyWord) : k.derivation.tree = .basic k.type := by
  cases k <;> rfl

theorem KeyWord.spellings_derivation (k : KeyWord) : k.derivation.spellings = k.spellings := by
  cases k <;> rfl

theorem KeyWord.isKeyType_tree (k : KeyWord) : isKeyType (.basic k.type) = true := by
  cases k <;> rfl

/-- The types that can be keys are those of the keys of the grammar. -/
theorem KeyWord.exists_of_isKeyType {d : Derivation .type} (h : isKeyType d.tree = true) :
    ∃ k : KeyWord, d = k.derivation := by
  cases d with
  | nullable d => cases h
  | plain d =>
    cases d with
    | array d => cases h
    | single d =>
      cases d with
      | keyword b =>
        cases b with
        | string => exact ⟨.string, rfl⟩
        | number => exact ⟨.number, rfl⟩
        | _ => cases h
      | deprecated w =>
        cases w with
        | bool => cases h
        | int => exact ⟨.int, rfl⟩
        | float => exact ⟨.float, rfl⟩
      | _ => cases h

/-! ### Brackets take characters -/

theorem Derivation.depth_le_length {n : Nonterminal} (d : Derivation n) :
    d.depth ≤ d.text.length := by
  induction d with
  | plain d ih => exact ih
  | nullable d ih => exact Nat.le_succ_of_le ih
  | single d ih => exact ih
  | array d ih =>
    show d.depth ≤ (d.text ++ ['[', ']']).length
    rw [List.length_append]
    exact Nat.le_add_right_of_le ih
  | iterableOf opening value closing ih =>
    show value.depth + 1 ≤ _
    rw [text_iterableOf]
    simp only [List.length_append, List.length_cons]
    omega
  | keyedIterable opening key before after value closing ih =>
    show value.depth + 1 ≤ _
    rw [text_keyedIterable]
    simp only [List.length_append, List.length_cons]
    omega
  | _ => exact Nat.zero_le _

end TemplateContracts.TypeGrammar
