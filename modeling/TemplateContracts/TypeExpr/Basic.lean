/-!
# Declared types

The type that a `types` statement declares for a variable: a basic type, a class, an iterable, or
any of these made nullable.  `TypeExpr.text` writes a type in the form that the parser reads back.
-/

namespace TemplateContracts

/-- A type with a keyword of its own. -/
inductive BasicType where
  | string
  | number
  | boolean
  | null
  | object
  | iterable
  | mixed
  deriving DecidableEq, Repr, Inhabited

namespace BasicType

/-- The keyword of a basic type. -/
def keyword : BasicType → String
  | string => "string"
  | number => "number"
  | boolean => "boolean"
  | null => "null"
  | object => "object"
  | iterable => "iterable"
  | mixed => "mixed"

/-- Every basic type. -/
def all : List BasicType := [string, number, boolean, null, object, iterable, mixed]

/-- The basic type of a keyword. -/
def ofKeyword? (word : String) : Option BasicType := all.find? fun b => b.keyword == word

end BasicType

/-- A declared type. -/
inductive TypeExpr where
  | basic (b : BasicType)
  /-- `?T`. -/
  | nullable (inner : TypeExpr)
  /-- `iterable<V>` or `V[]`. -/
  | iterableOf (value : TypeExpr)
  /-- `iterable<K, V>`. -/
  | keyedIterable (key value : TypeExpr)
  /-- A class, without its leading backslash. -/
  | classRef (name : String)
  deriving DecidableEq, Repr, Inhabited

namespace TypeExpr

/-- The type of everything. -/
def mixed : TypeExpr := .basic .mixed

/-- Whether a type is exactly `mixed`. -/
def isMixed : TypeExpr → Bool
  | .basic .mixed => true
  | _ => false

/-- `?T` and `null` admit null; `mixed` does not count. -/
def isNullable : TypeExpr → Bool
  | .nullable _ | .basic .null => true
  | _ => false

/-- `T` for `?T`, any other type itself. -/
def nonNull : TypeExpr → TypeExpr
  | .nullable inner => inner
  | t => t

/-- A type whose values have no attributes. -/
def isScalar : TypeExpr → Bool
  | .basic .string | .basic .number | .basic .boolean => true
  | _ => false

/-- The classes that a type names, those of values before those of keys. -/
def classRefs : TypeExpr → List String
  | .basic _ => []
  | .nullable inner => classRefs inner
  | .iterableOf value => classRefs value
  | .keyedIterable key value => classRefs value ++ classRefs key
  | .classRef name => [name]

/-- A type as written. -/
def text : TypeExpr → String
  | .basic b => b.keyword
  | .nullable inner => "?" ++ text inner
  | .iterableOf value => "iterable<" ++ text value ++ ">"
  | .keyedIterable key value => "iterable<" ++ text key ++ ", " ++ text value ++ ">"
  | .classRef name => "\\" ++ name

end TypeExpr

end TemplateContracts
