import TemplateContracts.Json.Basic
import TemplateContracts.Binary64.Decimal

/-!
# Reading JSON text

`Json.parse?` accepts exactly the texts of the standard grammar: no comments, no trailing commas, no
leading zeros, only space, tab, line feed and carriage return between tokens.  What is well formed
but has no value is `unreadable`, see `TemplateContracts.Json.Basic`; `Json.read?` refuses a text
with any such part.
-/

namespace TemplateContracts.Json

/-! ### Numbers -/

/-- The value of a digit. -/
def digitValue (c : Char) : Nat := c.toNat - '0'.toNat

/-- The number that a list of digits spells. -/
def digitsValue (ds : List Char) : Nat := ds.foldl (fun n c => 10 * n + digitValue c) 0

/-- Appends digits to a significand while it stays below `2 ^ 64`; also counts the digits left. -/
def keepDigits (significand : Nat) : List Char → Nat × Nat
  | [] => (significand, 0)
  | d :: ds =>
    if 10 * significand + digitValue d < UInt64.size then
      keepDigits (10 * significand + digitValue d) ds
    else (significand, ds.length + 1)

/-- A number as written. -/
structure Literal where
  negative : Bool
  /-- The digits before the point. -/
  whole : List Char
  /-- The digits after the point; none if there is no point. -/
  fraction : List Char
  /-- The number after the exponent mark. -/
  exponent : Option Int

/-- The double of a literal, from the leading digits that fit in sixty-four bits. -/
def Literal.toDouble? (l : Literal) : Option Binary64 :=
  let (head, dropped) := keepDigits 0 l.whole
  let (significand, ignored) := keepDigits head l.fraction
  let places : Int := (l.fraction.length : Int) - ignored
  Binary64.ofDecimal l.negative significand (dropped - places + l.exponent.getD 0)

/-- The number of a literal.  One without point and exponent is an integer if it fits in sixty-four
bits, signed or unsigned; `-0` is a double. -/
def Literal.number? (l : Literal) : Option Number :=
  let n := digitsValue l.whole
  if l.fraction.isEmpty && l.exponent.isNone && n < UInt64.size then
    if !l.negative then some (.int n)
    else if 0 < n ∧ n ≤ Int64.minValue.toInt.natAbs then some (.int (-(n : Int)))
    else some (.float (Binary64.ofNat n).negate)
  else l.toDouble?.map .float

/-- Splits off the leading digits. -/
def spanDigits (cs : List Char) : List Char × List Char :=
  (cs.takeWhile Char.isDigit, cs.dropWhile Char.isDigit)

/-- The digits before the point: a single zero, or digits that do not start with zero. -/
def scanWhole (cs : List Char) : Option (List Char × List Char) :=
  match spanDigits cs with
  | ([], _) => none
  | ('0' :: _ :: _, _) => none
  | (ds, rest) => some (ds, rest)

/-- A point and the digits after it, if there is a point. -/
def scanFraction : List Char → Option (List Char × List Char)
  | '.' :: cs =>
    match spanDigits cs with
    | ([], _) => none
    | (ds, rest) => some (ds, rest)
  | cs => some ([], cs)

/-- The digits of an exponent, after its sign. -/
def scanExponentDigits (negative : Bool) (cs : List Char) : Option (Option Int × List Char) :=
  match spanDigits cs with
  | ([], _) => none
  | (ds, rest) =>
    let n : Int := digitsValue ds
    some (some (if negative then -n else n), rest)

/-- An exponent, if there is an exponent mark. -/
def scanExponent : List Char → Option (Option Int × List Char)
  | c :: cs =>
    if c = 'e' ∨ c = 'E' then
      match cs with
      | '+' :: cs => scanExponentDigits false cs
      | '-' :: cs => scanExponentDigits true cs
      | cs => scanExponentDigits false cs
    else some (none, c :: cs)
  | [] => some (none, [])

/-- A number without its sign. -/
def scanUnsigned (negative : Bool) (cs : List Char) : Option (Literal × List Char) := do
  let (whole, cs) ← scanWhole cs
  let (fraction, cs) ← scanFraction cs
  let (exponent, cs) ← scanExponent cs
  return ({ negative, whole, fraction, exponent }, cs)

/-- A number. -/
def scanNumber : List Char → Option (Literal × List Char)
  | '-' :: cs => scanUnsigned true cs
  | cs => scanUnsigned false cs

/-! ### Strings -/

/-- The value of a hexadecimal digit. -/
def hexValue? (c : Char) : Option Nat :=
  if '0' ≤ c ∧ c ≤ '9' then some (c.toNat - '0'.toNat)
  else if 'a' ≤ c ∧ c ≤ 'f' then some (c.toNat - 'a'.toNat + 10)
  else if 'A' ≤ c ∧ c ≤ 'F' then some (c.toNat - 'A'.toNat + 10)
  else none

/-- The number that four hexadecimal digits spell. -/
def hex4? (a b c d : Char) : Option Nat := do
  let a ← hexValue? a
  let b ← hexValue? b
  let c ← hexValue? c
  let d ← hexValue? d
  return ((a * 16 + b) * 16 + c) * 16 + d

/-- The first half of a surrogate pair. -/
def isHighSurrogate (n : Nat) : Bool := 0xD800 ≤ n && n < 0xDC00

/-- The second half of a surrogate pair. -/
def isLowSurrogate (n : Nat) : Bool := 0xDC00 ≤ n && n < 0xE000

/-- The character of a surrogate pair. -/
def pairChar (high low : Nat) : Char :=
  Char.ofNat (0x10000 + (high - 0xD800) * 0x400 + (low - 0xDC00))

/-- The character of an escape other than a code point. -/
def plainEscape? (c : Char) : Option Char :=
  if c = '"' then some '"'
  else if c = '\\' then some '\\'
  else if c = '/' then some '/'
  else if c = 'b' then some (Char.ofNat 8)
  else if c = 'f' then some (Char.ofNat 12)
  else if c = 'n' then some '\n'
  else if c = 'r' then some '\r'
  else if c = 't' then some '\t'
  else none

/-- Puts a character before the content of a string.  A half of a surrogate pair that waits for the
other half spoils it. -/
def emit (waiting : Option Nat) (c : Char) (content : Option (List Char)) : Option (List Char) :=
  if waiting.isSome then none else content.map (c :: ·)

/-- Puts a code unit before the content of a string. -/
def emitUnit (waiting : Option Nat) (n : Nat) (content : Option (List Char)) : Option (List Char) :=
  match waiting with
  | some high => if isLowSurrogate n then content.map (pairChar high n :: ·) else none
  | none =>
    if isHighSurrogate n then content
    else if isLowSurrogate n then none
    else content.map (Char.ofNat n :: ·)

/-- The first half of a surrogate pair that waits after a code unit. -/
def waitingAfter (waiting : Option Nat) (n : Nat) : Option Nat :=
  if isHighSurrogate n && waiting.isNone then some n else none

/-- The content of a string after its opening quote, and what follows the closing one.  The content
is `none` if half of a surrogate pair stands alone. -/
def scanString (waiting : Option Nat) : List Char → Option (Option (List Char) × List Char)
  | '"' :: rest => some (if waiting.isSome then none else some [], rest)
  | '\\' :: 'u' :: a :: b :: c :: d :: rest =>
    match hex4? a b c d with
    | some n =>
      (scanString (waitingAfter waiting n) rest).map fun (s, rest) => (emitUnit waiting n s, rest)
    | none => none
  | '\\' :: c :: rest =>
    match plainEscape? c with
    | some c => (scanString none rest).map fun (s, rest) => (emit waiting c s, rest)
    | none => none
  | c :: rest =>
    if c = '\\' ∨ c.toNat < 32 then none
    else (scanString none rest).map fun (s, rest) => (emit waiting c s, rest)
  | [] => none

/-! ### Values -/

/-- White space between tokens. -/
def isSpace (c : Char) : Bool := c = ' ' || c = '\t' || c = '\n' || c = '\r'

/-- Drops leading white space. -/
def skipSpace (cs : List Char) : List Char := cs.dropWhile isSpace

/-- The greatest number of brackets that may be open at once. -/
def maxDepth : Nat := 127

/-- An array or object where `room` more brackets may be opened. -/
def enclose (room : Nat) (j : Json) : Json := if room = 0 then .unreadable else j

/-- A string value. -/
def ofContent : Option (List Char) → Json
  | some s => .string (String.ofList s)
  | none => .unreadable

/-- A number value. -/
def ofLiteral (l : Literal) : Json :=
  match l.number? with
  | some n => .number n
  | none => .unreadable

/-- The value of an object; `none` stands for a key without a value. -/
def ofMembers : Option (List (String × Json)) → Json
  | some ms => .object ms
  | none => .unreadable

mutual

/-- A value at the start of a text, where `room` more brackets may be opened. -/
def parseValue : (fuel room : Nat) → List Char → Option (Json × List Char)
  | 0, _, _ => none
  | fuel + 1, room, cs =>
    match skipSpace cs with
    | 'n' :: 'u' :: 'l' :: 'l' :: rest => some (.null, rest)
    | 't' :: 'r' :: 'u' :: 'e' :: rest => some (.bool true, rest)
    | 'f' :: 'a' :: 'l' :: 's' :: 'e' :: rest => some (.bool false, rest)
    | '"' :: rest => (scanString none rest).map fun (s, rest) => (ofContent s, rest)
    | '[' :: rest =>
      match skipSpace rest with
      | ']' :: rest => some (enclose room (.array []), rest)
      | rest => (parseItems fuel (room - 1) rest).map fun (items, rest) =>
          (enclose room (.array items), rest)
    | '\x7b' :: rest =>
      match skipSpace rest with
      | '\x7d' :: rest => some (enclose room (.object []), rest)
      | rest => (parseMembers fuel (room - 1) rest).map fun (ms, rest) =>
          (enclose room (ofMembers ms), rest)
    | cs => (scanNumber cs).map fun (l, rest) => (ofLiteral l, rest)

/-- The items of an array up to its closing bracket; at least one. -/
def parseItems : (fuel room : Nat) → List Char → Option (List Json × List Char)
  | 0, _, _ => none
  | fuel + 1, room, cs =>
    match parseValue fuel room cs with
    | none => none
    | some (j, rest) =>
      match skipSpace rest with
      | ']' :: rest => some ([j], rest)
      | ',' :: rest => (parseItems fuel room rest).map fun (items, rest) => (j :: items, rest)
      | _ => none

/-- The members of an object up to its closing brace; at least one. -/
def parseMembers :
    (fuel room : Nat) → List Char → Option (Option (List (String × Json)) × List Char)
  | 0, _, _ => none
  | fuel + 1, room, cs =>
    match skipSpace cs with
    | '"' :: rest =>
      match scanString none rest with
      | none => none
      | some (key, rest) =>
        match skipSpace rest with
        | ':' :: rest =>
          match parseValue fuel room rest with
          | none => none
          | some (j, rest) =>
            let member := key.map fun k => (String.ofList k, j)
            match skipSpace rest with
            | '\x7d' :: rest => some (member.map ([·]), rest)
            | ',' :: rest =>
              (parseMembers fuel room rest).map fun (ms, rest) =>
                (match member, ms with
                  | some m, some ms => some (m :: ms)
                  | _, _ => none, rest)
            | _ => none
        | _ => none
    | _ => none

end

/-- The value that a text spells. -/
def parse? (text : String) : Option Json :=
  let cs := text.toList
  match parseValue (2 * cs.length + 2) maxDepth cs with
  | some (j, rest) => if (skipSpace rest).isEmpty then some j else none
  | none => none

/-- The value that a text stands for on its own: all of it readable, members sorted by key, of
repeated keys the last. -/
def read? (text : String) : Option Json := (parse? text).bind canonical?

end TemplateContracts.Json
