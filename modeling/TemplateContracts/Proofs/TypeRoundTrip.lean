import TemplateContracts.Proofs.TypeParsing

/-!
# Declared types, written and read back

`TypeExpr.text` writes a type in one form only: no brackets behind a type and no deprecated
spelling.  Reading it takes other branches of the parser than the text the type came from, and still
gives the same type.  The types for which this holds are those that the parser gives at all.

* `TypeExpr.WellFormed` : no `?` directly under `?`, keys that are `string` or `number`, and class
  names made of words with a backslash between them;
* `TypeExpr.WellFormed.exists_writing` : a well-formed type has a derivation whose text is its own;
* `TypeExpr.parse_text_iff_wellFormed` : **well-formed types, types that some text gives and types
  that are read back from their own text are the same**.
-/

namespace TemplateContracts

open TypeGrammar TypeParser

/-- The types that can be written and read back. -/
inductive TypeExpr.WellFormed : TypeExpr → Prop where
  | basic (b : BasicType) : WellFormed (.basic b)
  | nullable {t : TypeExpr} : WellFormed t → (∀ u, t ≠ .nullable u) → WellFormed (.nullable t)
  | iterableOf {value : TypeExpr} : WellFormed value → WellFormed (.iterableOf value)
  | keyedIterable {key : BasicType} {value : TypeExpr} : key = .string ∨ key = .number →
      WellFormed value → WellFormed (.keyedIterable (.basic key) value)
  | classRef {name : String} (first : ClassWord) (more : List ClassWord) :
      name.toList = first.chars ++ classText more → WellFormed (.classRef name)

/-! ### What derivations stand for -/

namespace TypeGrammar

theorem KeyWord.type_eq (k : KeyWord) : k.type = .string ∨ k.type = .number := by
  cases k <;> decide

/-- Every derivation stands for a well-formed type, nullable only with a question mark. -/
theorem Derivation.wellFormed_tree {n : Nonterminal} (d : Derivation n) :
    d.tree.WellFormed ∧ (n ≠ .type → ∀ u, d.tree ≠ .nullable u) := by
  induction d with
  | plain d ih => exact ⟨ih.1, fun h => absurd rfl h⟩
  | nullable d ih => exact ⟨.nullable ih.1 (ih.2 (by decide)), fun h => absurd rfl h⟩
  | single d ih => exact ⟨ih.1, fun _ => ih.2 (by decide)⟩
  | array d ih => exact ⟨.iterableOf ih.1, fun _ _ h => nomatch h⟩
  | keyword b => exact ⟨.basic b, fun _ _ h => nomatch h⟩
  | deprecated w => exact ⟨.basic _, fun _ _ h => nomatch h⟩
  | iterableOf opening value closing ih => exact ⟨.iterableOf ih.1, fun _ _ h => nomatch h⟩
  | keyedIterable opening key before after value closing ih =>
    exact ⟨.keyedIterable key.type_eq ih.1, fun _ _ h => nomatch h⟩
  | className first more =>
    exact ⟨.classRef first more String.toList_ofList, fun _ _ h => nomatch h⟩

def Blanks.none : Blanks := ⟨[], by simp⟩

def Blanks.space : Blanks := ⟨[' '], List.forall_mem_singleton.mpr (by decide)⟩

end TypeGrammar

/-! ### Derivations of written types -/

namespace TypeGrammar.Derivation

/-- A derivation whose text is the written form of a type. -/
structure Writes {n : Nonterminal} (d : Derivation n) (t : TypeExpr) : Prop where
  text : d.text = t.text.toList
  tree : d.tree = t
  spellings : d.spellings = []

namespace Writes

theorem opening_toList : "iterable<".toList = "iterable".toList ++ ['<'] := by decide

theorem ofBase {d : Derivation .base} {t : TypeExpr} (h : d.Writes t) :
    (Derivation.plain (.single d)).Writes t := ⟨h.text, h.tree, h.spellings⟩

theorem keyword (b : BasicType) : (Derivation.keyword b).Writes (.basic b) := ⟨rfl, rfl, rfl⟩

theorem className {name : String} {first : ClassWord} {more : List ClassWord}
    (h : name.toList = first.chars ++ classText more) :
    (Derivation.className first more).Writes (.classRef name) := by
  refine ⟨?_, ?_, rfl⟩
  · have hslash : "\\".toList = ['\\'] := by decide
    rw [TypeExpr.text, String.toList_append, hslash, h]
    rfl
  · show TypeExpr.classRef (String.ofList (first.chars ++ classText more)) = _
    rw [← h, String.ofList_toList]

theorem iterableOf {d : Derivation .type} {t : TypeExpr} (h : d.Writes t) :
    (Derivation.iterableOf .none d .none).Writes (.iterableOf t) := by
  refine ⟨?_, congrArg TypeExpr.iterableOf h.tree, h.spellings⟩
  have hclose : ">".toList = ['>'] := by decide
  rw [text_iterableOf, h.text, TypeExpr.text, String.toList_append, String.toList_append,
    opening_toList, hclose]
  simp only [Blanks.none, List.append_assoc, List.cons_append, List.nil_append]

theorem keyedIterable {d : Derivation .type} {t : TypeExpr} (h : d.Writes t) {key : KeyWord}
    {b : BasicType} (hkey : key.derivation.Writes (.basic b)) :
    (Derivation.keyedIterable .none key .none .space d .none).Writes
      (.keyedIterable (.basic b) t) := by
  have htext : key.text = b.keyword.toList := key.text_derivation.symm.trans hkey.text
  have htree : TypeExpr.basic key.type = .basic b := key.tree_derivation.symm.trans hkey.tree
  have hspellings : key.spellings = [] := key.spellings_derivation.symm.trans hkey.spellings
  refine ⟨?_, ?_, ?_⟩
  · have hcomma : ", ".toList = [',', ' '] := by decide
    have hclose : ">".toList = ['>'] := by decide
    rw [text_keyedIterable, h.text, htext, TypeExpr.text, TypeExpr.text]
    simp only [String.toList_append, opening_toList, hcomma, hclose, Blanks.none, Blanks.space,
      List.append_assoc, List.cons_append, List.nil_append]
  · show TypeExpr.keyedIterable (.basic key.type) d.tree = _
    rw [htree, h.tree]
  · show key.spellings ++ d.spellings = []
    rw [hspellings, h.spellings, List.append_nil]

theorem nullable {d : Derivation .suffixed} {t : TypeExpr} (h : (Derivation.plain d).Writes t) :
    (Derivation.nullable d).Writes (.nullable t) := by
  refine ⟨?_, congrArg TypeExpr.nullable h.tree, h.spellings⟩
  have hquestion : "?".toList = ['?'] := by decide
  rw [TypeExpr.text, String.toList_append, hquestion, ← h.text]
  rfl

end Writes

end TypeGrammar.Derivation

namespace TypeExpr

theorem WellFormed.exists_writing {t : TypeExpr} (h : t.WellFormed) :
    ∃ d : Derivation .type, d.Writes t := by
  induction h with
  | basic b => exact ⟨_, (Derivation.Writes.keyword b).ofBase⟩
  | nullable _ hnull ih =>
    obtain ⟨d, hd⟩ := ih
    cases d with
    | plain d => exact ⟨_, hd.nullable⟩
    | nullable d => exact absurd hd.tree.symm (hnull _)
  | iterableOf _ ih =>
    obtain ⟨d, hd⟩ := ih
    exact ⟨_, hd.iterableOf.ofBase⟩
  | keyedIterable hkey _ ih =>
    obtain ⟨d, hd⟩ := ih
    rcases hkey with rfl | rfl
    · have hstring : KeyWord.string.derivation.Writes (.basic .string) :=
        (Derivation.Writes.keyword .string).ofBase
      exact ⟨_, (hd.keyedIterable hstring).ofBase⟩
    · have hnumber : KeyWord.number.derivation.Writes (.basic .number) :=
        (Derivation.Writes.keyword .number).ofBase
      exact ⟨_, (hd.keyedIterable hnumber).ofBase⟩
  | classRef first more hname => exact ⟨_, (Derivation.Writes.className hname).ofBase⟩

/-- A well-formed type is read from its own text, without a deprecated spelling. -/
theorem WellFormed.parse_text {t : TypeExpr} (h : t.WellFormed) :
    TypeExpr.parse t.text = .ok t ∧ (ofText t.text).parse.2.deprecations = [] := by
  obtain ⟨d, hd⟩ := h.exists_writing
  have hrest : (ofText t.text).rest = (Sentence.mk .none d .none).text := by
    rw [Sentence.text, hd.text]
    exact (List.append_nil _).symm
  obtain ⟨p', hparse, hdep⟩ := parse_of_sentence _ hrest
  rw [TypeExpr.parse, hparse]
  exact ⟨congrArg Except.ok hd.tree, hdep.trans hd.spellings⟩

theorem wellFormed_of_parse {s : String} {t : TypeExpr} (h : TypeExpr.parse s = .ok t) :
    t.WellFormed := by
  obtain ⟨d, -, rfl, -⟩ := exists_sentence_of_parse (Prod.ext h rfl)
  exact d.type.wellFormed_tree.1

/-- **Writing and reading are inverse on declared types.**  The types that some text gives are the
well-formed ones, and these are the types that come back, without a deprecated spelling, when their
own text is read. -/
theorem parse_text_iff_wellFormed (t : TypeExpr) :
    ((∃ s, TypeExpr.parse s = .ok t) ↔ t.WellFormed) ∧
    (TypeExpr.parse t.text = .ok t ∧ (ofText t.text).parse.2.deprecations = [] ↔ t.WellFormed) := by
  refine ⟨⟨?_, fun h => ⟨t.text, h.parse_text.1⟩⟩, ⟨fun h => wellFormed_of_parse h.1, ?_⟩⟩
  · rintro ⟨s, h⟩
    exact wellFormed_of_parse h
  · exact WellFormed.parse_text

end TypeExpr

end TemplateContracts
