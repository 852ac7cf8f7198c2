import TemplateContracts.Text.Blank
import TemplateContracts.TypeExpr.Basic

/-!
# Reading declared types

The grammar is

    type   := '?'? suffix
    suffix := base '[]'?
    base   := keyword | 'iterable' ('<' (key ',')? type '>')? | ('\' word)+
    key    := string | number

with blanks allowed around a type and inside angle brackets.  `bool`, `int` and `float` are
deprecated spellings of `boolean` and `number`.

A `TypeParser` is a position in a text: what is left of it, how many bytes of UTF-8 lie before, and
the deprecated spellings met so far.  Every reading returns the position where it stopped, also when
it fails, so a parser can be asked again.
-/

namespace TemplateContracts

/-- Why a text is not a type. -/
inductive TypeSyntaxError where
  | empty
  /-- A character that cannot stand at this byte offset. -/
  | unexpected (found : Char) (offset : Nat)
  | unexpectedEnd (expected : String)
  | unknownKeyword (word : String)
  | doubleNullable
  | invalidKeyType (typeText : String)
  | malformedClassName (name : String)
  deriving DecidableEq, Repr, Inhabited

/-- The error in words. -/
def TypeSyntaxError.message : TypeSyntaxError → String
  | empty => "empty type"
  | unexpected found offset =>
    "unexpected '" ++ found.toString ++ "' at offset " ++ toString offset
  | unexpectedEnd expected => "unexpected end of type, expected " ++ expected
  | unknownKeyword word => "unknown type keyword '" ++ word ++ "'"
  | doubleNullable => "nullable type cannot be nullable again"
  | invalidKeyType typeText =>
    "iterable key type must be 'string' or 'number', found '" ++ typeText ++ "'"
  | malformedClassName name => "malformed class name '" ++ name ++ "'"

/-- A deprecated spelling and what to write in its place. -/
structure Deprecation where
  spelling : String
  replacement : BasicType
  deriving DecidableEq, Repr, Inhabited

/-- The deprecated spellings. -/
def deprecatedAliases : List Deprecation :=
  [⟨"bool", .boolean⟩, ⟨"int", .number⟩, ⟨"float", .number⟩]

/-- A position in the text of a type. -/
structure TypeParser where
  /-- What is left of the text. -/
  rest : List Char
  /-- The bytes before it. -/
  offset : Nat
  /-- The deprecated spellings met so far, in order. -/
  deprecations : List Deprecation
  deriving DecidableEq, Repr, Inhabited

/-- The number of bytes of a list of characters in UTF-8. -/
def utf8Size (cs : List Char) : Nat := cs.foldr (fun c n => c.utf8Size + n) 0

namespace TypeParser

/-- What a reading gives, and the position where it stopped. -/
abbrev Outcome := Except TypeSyntaxError TypeExpr × TypeParser

/-- The start of a text. -/
def ofText (text : String) : TypeParser := ⟨text.toList, 0, []⟩

/-- Moves past the first `n` characters. -/
def advance (p : TypeParser) (n : Nat) : TypeParser :=
  { p with rest := p.rest.drop n, offset := p.offset + utf8Size (p.rest.take n) }

/-- Moves past blanks. -/
def skipBlanks (p : TypeParser) : TypeParser := p.advance (p.rest.takeWhile Text.isBlank).length

/-- A character of a word. -/
def isWordChar (c : Char) : Bool := c.isAlphanum || c == '_'

/-- The word at the position, possibly empty. -/
def word (p : TypeParser) : List Char := p.rest.takeWhile isWordChar

/-- Fails at the next character, or at the end where something is expected. -/
def unexpected (p : TypeParser) (expected : String) : Outcome :=
  match p.rest with
  | c :: _ => (.error (.unexpected c p.offset), p)
  | [] => (.error (.unexpectedEnd expected), p)

/-! ### Class names -/

/-- How a segment of a class name stands. -/
inductive Segment where
  /-- No character yet. -/
  | fresh
  /-- Started well. -/
  | good
  /-- Started with a digit. -/
  | bad
  deriving DecidableEq, Repr

/-- A segment after one more word character. -/
def Segment.next (s : Segment) (c : Char) : Segment :=
  match s with
  | fresh => if c.isDigit then bad else good
  | s => s

/-- How many characters belong to a class name, and whether it is well formed. -/
def scanClass : Segment → List Char → Nat × Bool
  | s, [] => (0, s == .good)
  | s, c :: cs =>
    if isWordChar c then
      let (n, ok) := scanClass (s.next c) cs
      (n + 1, ok)
    else if c = '\\' ∧ s = .good then
      let (n, ok) := scanClass .fresh cs
      (n + 1, ok)
    else (0, s == .good)

/-- A class name, at its leading backslash. -/
def classNameType (p : TypeParser) : Outcome :=
  let (n, ok) := scanClass .fresh (p.rest.drop 1)
  let name := p.rest.take (n + 1)
  let p' := p.advance (n + 1)
  if ok then (.ok (.classRef (String.ofList (name.drop 1))), p')
  else (.error (.malformedClassName (String.ofList name)), p')

/-! ### Types -/

/-- Expects the closing bracket of an iterable. -/
def closing (t : TypeExpr) (p : TypeParser) : Outcome :=
  match p.rest with
  | '>' :: _ => (.ok t, p.advance 1)
  | _ => p.unexpected "'>'"

/-- A type that can be the key of an iterable. -/
def isKeyType : TypeExpr → Bool
  | .basic .string | .basic .number => true
  | _ => false

/-- What follows `iterable<`, with a reader of the types inside. -/
def generic (inner : TypeParser → Outcome) (p : TypeParser) : Outcome :=
  match inner p.skipBlanks with
  | (.error e, p) => (.error e, p)
  | (.ok first, p) =>
    let p := p.skipBlanks
    match p.rest with
    | ',' :: _ =>
      let p := p.advance 1
      if isKeyType first then
        match inner p.skipBlanks with
        | (.error e, p) => (.error e, p)
        | (.ok value, p) => closing (.keyedIterable first value) p.skipBlanks
      else (.error (.invalidKeyType first.text), p)
    | _ => closing (.iterableOf first) p

/-- A keyword or a deprecated spelling; the position is behind it. -/
def ofWord (w : String) (p : TypeParser) : Outcome :=
  match BasicType.ofKeyword? w with
  | some b => (.ok (.basic b), p)
  | none =>
    match deprecatedAliases.find? fun d => d.spelling == w with
    | some d => (.ok (.basic d.replacement), { p with deprecations := p.deprecations ++ [d] })
    | none => (.error (.unknownKeyword w), p)

/-- A type without its question mark and brackets. -/
def base (inner : TypeParser → Outcome) (p : TypeParser) : Outcome :=
  match p.rest with
  | '\\' :: _ => p.classNameType
  | _ =>
    let w := p.word
    let p := p.advance w.length
    if w.isEmpty then p.unexpected "a type"
    else
      match p.rest with
      | '<' :: _ =>
        if w = "iterable".toList then generic inner (p.advance 1) else ofWord (String.ofList w) p
      | _ => ofWord (String.ofList w) p

/-- A type without its question mark. -/
def suffixed (inner : TypeParser → Outcome) (p : TypeParser) : Outcome :=
  match base inner p with
  | (.error e, p) => (.error e, p)
  | (.ok t, p) =>
    match p.rest with
    | '[' :: ']' :: _ => (.ok (.iterableOf t), p.advance 2)
    | _ => (.ok t, p)

/-- A type, with a reader of the types inside its brackets. -/
def typeWith (inner : TypeParser → Outcome) (p : TypeParser) : Outcome :=
  match p.rest with
  | '?' :: '?' :: _ => (.error .doubleNullable, p.advance 1)
  | '?' :: _ =>
    match suffixed inner (p.advance 1) with
    | (.error e, p) => (.error e, p)
    | (.ok t, p) => (.ok (.nullable t), p)
  | _ => suffixed inner p

/-- A type whose brackets nest less than `bound` deep. -/
def typeWithin : (bound : Nat) → TypeParser → Outcome
  | 0, p => (.error .empty, p)
  | bound + 1, p => typeWith (typeWithin bound) p

/-- Reads the rest of the text as one type.  Every bracket takes a character, so the length of the
rest bounds the nesting. -/
def parse (p : TypeParser) : Outcome :=
  let p := p.skipBlanks
  if p.rest.isEmpty then (.error .empty, p)
  else
    match typeWithin (p.rest.length + 1) p with
    | (.error e, p) => (.error e, p)
    | (.ok t, p) =>
      let p := p.skipBlanks
      if p.rest.isEmpty then (.ok t, p) else p.unexpected "a type"

end TypeParser

/-- Reads a text as a type. -/
def TypeExpr.parse (text : String) : Except TypeSyntaxError TypeExpr :=
  (TypeParser.ofText text).parse.1

/-- Reads a text as a type, or as nothing. -/
def TypeExpr.parse? (text : String) : Option TypeExpr := (TypeExpr.parse text).toOption

end TemplateContracts
