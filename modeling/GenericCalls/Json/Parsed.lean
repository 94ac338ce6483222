/-! # JSON values as they are written

A JSON text is read into a value that keeps two marks of its writing: whether the escapes of a
string spell a text, and whether a number is within the range of numbers. A reader that only skips a
value does not mind either, and it skips values nested to any depth; a reader that takes a value
minds both, and the depth. -/

namespace GenericCalls.Json

/-- A JSON value as it is written. A string is `none` if a surrogate among its escapes stands alone.
The entries of an object keep their order, repeated keys included. -/
inductive Parsed where
  | null
  | bool (b : Bool)
  | number (inRange : Bool)
  | string (s : Option String)
  | array (items : List Parsed)
  | object (entries : List (Option String × Parsed))
deriving Repr, Inhabited

namespace Parsed

/-- How many arrays and objects may be nested in a text that is taken as a whole. -/
def maxNesting : Nat := 127

mutual
/-- Whether all strings and numbers of a value are proper, and its arrays and objects are nested at
most so deep. -/
def isProper : Nat → Parsed → Bool
  | _, .null => true
  | _, .bool _ => true
  | _, .number inRange => inRange
  | _, .string s => s.isSome
  | 0, .array _ => false
  | n + 1, .array items => areProper n items
  | 0, .object _ => false
  | n + 1, .object entries => areProperEntries n entries
def areProper : Nat → List Parsed → Bool
  | _, [] => true
  | n, v :: vs => isProper n v && areProper n vs
def areProperEntries : Nat → List (Option String × Parsed) → Bool
  | _, [] => true
  | n, (k, v) :: rest => k.isSome && isProper n v && areProperEntries n rest
end

end Parsed

end GenericCalls.Json
