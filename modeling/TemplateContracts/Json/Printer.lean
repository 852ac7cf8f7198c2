import TemplateContracts.Json.Basic
import TemplateContracts.Binary64.Shortest

/-!
# JSON text

`Json.compact` writes a value without any white space, `Json.pretty` over several lines with an
indentation of two.  Only quotes, backslashes and control characters are escaped.
-/

namespace TemplateContracts.Json

/-- Doubles have the fewest digits that read back, a half going to the even digit.  They are
positional, with a point, between `10 ^ -5` and `10 ^ 16`. -/
def layout : Binary64.Layout :=
  { positional := some (-5, 15), keepPlace := true, tie := .toEven,
    nan := "null", infinity := "null" }

/-- A hexadecimal digit. -/
def hexDigit (n : Nat) : Char := Nat.digitChar n

/-- A character inside a string. -/
def escape (c : Char) : List Char :=
  if c = '"' then ['\\', '"']
  else if c = '\\' then ['\\', '\\']
  else if c.toNat = 8 then ['\\', 'b']
  else if c.toNat = 9 then ['\\', 't']
  else if c.toNat = 10 then ['\\', 'n']
  else if c.toNat = 12 then ['\\', 'f']
  else if c.toNat = 13 then ['\\', 'r']
  else if c.toNat < 32 then ['\\', 'u', '0', '0', hexDigit (c.toNat / 16), hexDigit (c.toNat % 16)]
  else [c]

/-- A string in quotes. -/
def quote (s : String) : List Char := '"' :: (s.toList.flatMap escape ++ ['"'])

/-- An integer in decimal. -/
def intText (i : Int) : List Char :=
  (if i < 0 then ['-'] else []) ++ Nat.toDigits 10 i.natAbs

/-- A number. -/
def Number.text : Number → List Char
  | .int i => intText i
  | .float x => layout.text x

/-- `true` or `false`. -/
def boolText (b : Bool) : List Char := if b then "true".toList else "false".toList

mutual

/-- The characters of a value, without white space. -/
def chars : Json → List Char
  | .null => "null".toList
  | .bool b => boolText b
  | .number n => n.text
  | .string s => quote s
  | .array [] => ['[', ']']
  | .array (j :: rest) => '[' :: (chars j ++ itemsChars rest)
  | .object [] => ['\x7b', '\x7d']
  | .object ((k, j) :: rest) => '\x7b' :: (quote k ++ ':' :: (chars j ++ membersChars rest))
  | .unreadable => "null".toList

/-- The items after the first, and the closing bracket. -/
def itemsChars : List Json → List Char
  | [] => [']']
  | j :: rest => ',' :: (chars j ++ itemsChars rest)

/-- The members after the first, and the closing brace. -/
def membersChars : List (String × Json) → List Char
  | [] => ['\x7d']
  | (k, j) :: rest => ',' :: (quote k ++ ':' :: (chars j ++ membersChars rest))

end

/-- The text of a value, without white space. -/
def compact (j : Json) : String := String.ofList (chars j)

/-- A line break and the indentation of a nesting level. -/
def newline (level : Nat) : List Char := '\n' :: List.replicate (2 * level) ' '

mutual

/-- The characters of a value at a nesting level, one item or member a line. -/
def prettyChars (level : Nat) : Json → List Char
  | .array (j :: rest) =>
    '[' :: (newline (level + 1) ++ prettyChars (level + 1) j ++ prettyItems level rest)
  | .object ((k, j) :: rest) =>
    '\x7b' :: (newline (level + 1) ++ quote k ++ ':' :: ' ' ::
      (prettyChars (level + 1) j ++ prettyMembers level rest))
  | j => chars j

/-- The items after the first, and the closing bracket. -/
def prettyItems (level : Nat) : List Json → List Char
  | [] => newline level ++ [']']
  | j :: rest => ',' :: (newline (level + 1) ++ prettyChars (level + 1) j ++ prettyItems level rest)

/-- The members after the first, and the closing brace. -/
def prettyMembers (level : Nat) : List (String × Json) → List Char
  | [] => newline level ++ ['\x7d']
  | (k, j) :: rest =>
    ',' :: (newline (level + 1) ++ quote k ++ ':' :: ' ' ::
      (prettyChars (level + 1) j ++ prettyMembers level rest))

end

/-- The text of a value over several lines. -/
def pretty (j : Json) : String := String.ofList (prettyChars 0 j)

end TemplateContracts.Json
