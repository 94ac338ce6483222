import GenericCalls.Json.Number
import GenericCalls.Json.Parsed

/-! # Reading JSON

The strict JSON grammar: no comments, no trailing commas, no text after the value, no control
characters in strings. -/

namespace GenericCalls.Json

/-! ### Blanks and words -/

def isSpace (c : Char) : Bool := c == ' ' || c == '\t' || c == '\n' || c == '\r'

def skipSpace (cs : List Char) : List Char := cs.dropWhile isSpace

def skipWord? : List Char → List Char → Option (List Char)
  | [], cs => some cs
  | w :: ws, c :: cs => if w = c then skipWord? ws cs else none
  | _ :: _, [] => none

/-! ### Strings -/

/-- A part of a string: a character, or a surrogate that was escaped. -/
inductive CodeUnit where
  | char (c : Char)
  | surrogate (n : Nat)
deriving Repr, Inhabited

def hexDigit? (c : Char) : Option Nat :=
  if '0' ≤ c ∧ c ≤ '9' then some (c.toNat - '0'.toNat)
  else if 'a' ≤ c ∧ c ≤ 'f' then some (c.toNat - 'a'.toNat + 10)
  else if 'A' ≤ c ∧ c ≤ 'F' then some (c.toNat - 'A'.toNat + 10)
  else none

/-- The unit with a number below `2 ^ 16`. -/
def CodeUnit.ofNat (n : Nat) : CodeUnit :=
  if 0xD800 ≤ n ∧ n ≤ 0xDFFF then .surrogate n else .char (Char.ofNat n)

/-- Reads the part of an escape that follows the backslash. -/
def readEscape : List Char → Option (CodeUnit × List Char)
  | '"' :: cs => some (.char '"', cs)
  | '\\' :: cs => some (.char '\\', cs)
  | '/' :: cs => some (.char '/', cs)
  | 'b' :: cs => some (.char '\x08', cs)
  | 'f' :: cs => some (.char '\x0c', cs)
  | 'n' :: cs => some (.char '\n', cs)
  | 'r' :: cs => some (.char '\r', cs)
  | 't' :: cs => some (.char '\t', cs)
  | 'u' :: a :: b :: c :: d :: cs => do
    let n := (← hexDigit? a) * 4096 + (← hexDigit? b) * 256 + (← hexDigit? c) * 16 + (← hexDigit? d)
    return (.ofNat n, cs)
  | _ => none

/-- Reads the units of a string up to its closing quote, in at most so many steps. -/
def readUnits : Nat → List Char → Option (List CodeUnit × List Char)
  | 0, _ => none
  | _ + 1, [] => none
  | _ + 1, '"' :: cs => some ([], cs)
  | n + 1, '\\' :: cs => do
    let (u, cs) ← readEscape cs
    let (us, cs) ← readUnits n cs
    return (u :: us, cs)
  | n + 1, c :: cs => do
    if c.toNat < 0x20 then
      none
    else
      let (us, cs) ← readUnits n cs
      return (.char c :: us, cs)

/-- The characters that units spell. A high surrogate and the low one after it spell one character;
any other surrogate spells none. -/
def spell? : List CodeUnit → Option (List Char)
  | [] => some []
  | .char c :: us => (spell? us).map (c :: ·)
  | .surrogate h :: .surrogate l :: us =>
    if h < 0xDC00 ∧ 0xDC00 ≤ l then
      (spell? us).map (Char.ofNat (0x10000 + (h - 0xD800) * 0x400 + (l - 0xDC00)) :: ·)
    else none
  | .surrogate _ :: _ => none

/-- Reads a string after its opening quote; the text is `none` if a surrogate in it stands alone. -/
def readString (cs : List Char) : Option (Option String × List Char) := do
  let (us, rest) ← readUnits (cs.length + 1) cs
  return ((spell? us).map String.ofList, rest)

/-! ### Numbers -/

def isDigit (c : Char) : Bool := decide ('0' ≤ c) && decide (c ≤ '9')

def readDigits (cs : List Char) : Option (List Char × List Char) :=
  match cs.takeWhile isDigit with
  | [] => none
  | ds => some (ds, cs.dropWhile isDigit)

/-- Reads the whole part of a number: it starts with a zero only if it is zero. -/
def readWhole : List Char → Option (List Char × List Char)
  | '0' :: c :: cs => if isDigit c then none else some (['0'], c :: cs)
  | cs => readDigits cs

def readFraction : List Char → Option (List Char × List Char)
  | '.' :: cs => readDigits cs
  | cs => some ([], cs)

def readExponent : List Char → Option (Int × List Char)
  | c :: cs =>
    if c = 'e' ∨ c = 'E' then do
      let (negative, cs) := match cs with
        | '-' :: cs => (true, cs)
        | '+' :: cs => (false, cs)
        | cs => (false, cs)
      let (ds, cs) ← readDigits cs
      let n : Int := natOfDigits ds
      return (if negative then -n else n, cs)
    else some (0, c :: cs)
  | [] => some (0, [])

def readNumber (cs : List Char) : Option (Parsed × List Char) := do
  let (whole, cs) ← readWhole cs
  let (fraction, cs) ← readFraction cs
  let (exponent, cs) ← readExponent cs
  return (.number (Numeral.isInRange ⟨whole, fraction, exponent⟩), cs)

/-! ### Values -/

mutual
def readValue : Nat → List Char → Option (Parsed × List Char)
  | 0, _ => none
  | n + 1, cs =>
    match skipSpace cs with
    | '"' :: cs => (readString cs).map fun (s, cs) => (.string s, cs)
    | '[' :: cs =>
      match skipSpace cs with
      | ']' :: cs => some (.array [], cs)
      | cs => (readItems n cs).map fun (vs, cs) => (.array vs, cs)
    | '\x7b' :: cs =>
      match skipSpace cs with
      | '\x7d' :: cs => some (.object [], cs)
      | cs => (readEntries n cs).map fun (es, cs) => (.object es, cs)
    | '-' :: cs => readNumber cs
    | 'n' :: cs => (skipWord? "ull".toList cs).map (.null, ·)
    | 't' :: cs => (skipWord? "rue".toList cs).map (.bool true, ·)
    | 'f' :: cs => (skipWord? "alse".toList cs).map (.bool false, ·)
    | cs => readNumber cs
def readItems : Nat → List Char → Option (List Parsed × List Char)
  | 0, _ => none
  | n + 1, cs => do
    let (v, cs) ← readValue n cs
    match skipSpace cs with
    | ']' :: cs => return ([v], cs)
    | ',' :: cs =>
      let (vs, cs) ← readItems n cs
      return (v :: vs, cs)
    | _ => none
def readEntries : Nat → List Char → Option (List (Option String × Parsed) × List Char)
  | 0, _ => none
  | n + 1, cs =>
    match skipSpace cs with
    | '"' :: cs => do
      let (k, cs) ← readString cs
      match skipSpace cs with
      | ':' :: cs =>
        let (v, cs) ← readValue n cs
        match skipSpace cs with
        | '\x7d' :: cs => return ([(k, v)], cs)
        | ',' :: cs =>
          let (es, cs) ← readEntries n cs
          return ((k, v) :: es, cs)
        | _ => none
      | _ => none
    | _ => none
end

def read? (text : String) : Option Parsed := do
  let cs := text.toList
  let (v, rest) ← readValue (2 * cs.length + 2) cs
  if (skipSpace rest).isEmpty then some v else none

end GenericCalls.Json
