import GenericCalls.Text.Alphabetic
import GenericCalls.Text.Blank
import GenericCalls.Text.Numeric

/-! # Tokens of type expressions

A type expression is read as tokens: names, the symbols of the grammar, and any other character by
itself. A name is as long as possible. Blanks separate tokens and mean nothing else. Each token
knows the offset in bytes at which it starts. -/

namespace GenericCalls.TypeExpr

inductive Symbol where
  | question | ampersand | less | greater | comma | opening | closing
deriving DecidableEq, Repr, Inhabited

def Symbol.char : Symbol → Char
  | question => '?'
  | ampersand => '&'
  | less => '<'
  | greater => '>'
  | comma => ','
  | opening => '['
  | closing => ']'

def Symbol.ofChar? : Char → Option Symbol
  | '?' => some question
  | '&' => some ampersand
  | '<' => some less
  | '>' => some greater
  | ',' => some comma
  | '[' => some opening
  | ']' => some closing
  | _ => none

theorem Symbol.ofChar?_char (s : Symbol) : ofChar? s.char = some s := by cases s <;> rfl

inductive Lexeme where
  | name (s : String)
  | symbol (s : Symbol)
  | other (c : Char)
deriving DecidableEq, Repr, Inhabited

structure Token where
  lexeme : Lexeme
  start : Nat
deriving DecidableEq, Repr, Inhabited

def isNameStart (c : Char) : Bool := c == '$' || c == '_' || Text.isAlphabetic c

def isNamePart (c : Char) : Bool :=
  c == '$' || c == '_' || c == '.' || Text.isAlphabetic c || Text.isNumeric c

/-- The longest beginning of a text that goes on with a name, and the rest. -/
def spanName : List Char → List Char × List Char
  | [] => ([], [])
  | c :: cs =>
    if isNamePart c then
      let (name, rest) := spanName cs
      (c :: name, rest)
    else ([], c :: cs)

theorem spanName_append (cs : List Char) : (spanName cs).1 ++ (spanName cs).2 = cs := by
  induction cs with
  | nil => rfl
  | cons c cs ih =>
    simp only [spanName]
    split
    · simp [ih]
    · rfl

theorem length_spanName (cs : List Char) : (spanName cs).2.length ≤ cs.length := by
  have := congrArg List.length (spanName_append cs)
  simp only [List.length_append] at this
  omega

theorem isNamePart_of_mem_spanName {c : Char} {cs : List Char} (h : c ∈ (spanName cs).1) :
    isNamePart c = true := by
  induction cs with
  | nil => simp [spanName] at h
  | cons d ds ih =>
    simp only [spanName] at h
    split at h
    · rename_i hd
      rcases List.mem_cons.1 h with rfl | h
      · exact hd
      · exact ih h
    · cases h

theorem isNamePart_of_spanName_eq_cons {c : Char} {cs rest : List Char}
    (h : (spanName cs).2 = c :: rest) : isNamePart c = false := by
  induction cs with
  | nil => simp [spanName] at h
  | cons d ds ih =>
    simp only [spanName] at h
    split at h
    · exact ih h
    · rename_i hd
      cases h
      simpa using hd

def byteLength : List Char → Nat
  | [] => 0
  | c :: cs => c.utf8Size + byteLength cs

theorem byteLength_append (cs ds : List Char) :
    byteLength (cs ++ ds) = byteLength cs + byteLength ds := by
  induction cs with
  | nil => simp [byteLength]
  | cons c cs ih => simp [byteLength, ih, Nat.add_assoc]

/-- Reads the tokens of characters that start at a byte offset, in at most so many steps. -/
def tokensFrom : Nat → Nat → List Char → List Token
  | 0, _, _ => []
  | _ + 1, _, [] => []
  | n + 1, pos, c :: cs =>
    if Text.isBlank c then tokensFrom n (pos + c.utf8Size) cs
    else if isNameStart c then
      let (part, rest) := spanName cs
      ⟨.name (String.ofList (c :: part)), pos⟩ ::
        tokensFrom n (pos + byteLength (c :: part)) rest
    else
      match Symbol.ofChar? c with
      | some s => ⟨.symbol s, pos⟩ :: tokensFrom n (pos + c.utf8Size) cs
      | none => ⟨.other c, pos⟩ :: tokensFrom n (pos + c.utf8Size) cs

def tokens (input : String) : List Token := tokensFrom input.toList.length 0 input.toList

end GenericCalls.TypeExpr
