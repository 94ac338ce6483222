/-! # Printing JSON

JSON values as indented text. Entries of an object keep their order. Control characters, quotes and
backslashes are escaped, all other characters stand for themselves. -/

namespace GenericCalls.Json

inductive Value where
  | null
  | bool (b : Bool)
  | string (s : String)
  | array (items : List Value)
  | object (entries : List (String × Value))
deriving Repr, Inhabited

/-! ### Strings -/

def hexDigit (n : Nat) : Char :=
  if n < 10 then Char.ofNat ('0'.toNat + n) else Char.ofNat ('a'.toNat + (n - 10))

def escapeChar (c : Char) : List Char :=
  if c = '"' then ['\\', '"']
  else if c = '\\' then ['\\', '\\']
  else if c = '\x08' then ['\\', 'b']
  else if c = '\x0c' then ['\\', 'f']
  else if c = '\n' then ['\\', 'n']
  else if c = '\r' then ['\\', 'r']
  else if c = '\t' then ['\\', 't']
  else if c.toNat < 0x20 then
    ['\\', 'u', '0', '0', hexDigit (c.toNat / 16), hexDigit (c.toNat % 16)]
  else [c]

def quote (s : String) : String := String.ofList ('"' :: s.toList.flatMap escapeChar ++ ['"'])

/-! ### Values -/

def newLine (level : Nat) : String := "\n" ++ String.ofList (List.replicate (2 * level) ' ')

mutual
/-- The text of a value whose parts are indented by one step more than `level`. -/
def printAt (level : Nat) : Value → String
  | .null => "null"
  | .bool true => "true"
  | .bool false => "false"
  | .string s => quote s
  | .array [] => "[]"
  | .array (v :: vs) =>
    "[" ++ newLine (level + 1) ++ printAt (level + 1) v ++ printItems (level + 1) vs
      ++ newLine level ++ "]"
  | .object [] => "\x7b\x7d"
  | .object ((k, v) :: es) =>
    "\x7b" ++ newLine (level + 1) ++ quote k ++ ": " ++ printAt (level + 1) v
      ++ printEntries (level + 1) es ++ newLine level ++ "\x7d"
def printItems (level : Nat) : List Value → String
  | [] => ""
  | v :: vs => "," ++ newLine level ++ printAt level v ++ printItems level vs
def printEntries (level : Nat) : List (String × Value) → String
  | [] => ""
  | (k, v) :: es =>
    "," ++ newLine level ++ quote k ++ ": " ++ printAt level v ++ printEntries level es
end

def print (v : Value) : String := printAt 0 v

end GenericCalls.Json
