import GenericCalls.TypeExpr.Scope
import GenericCalls.TypeExpr.Token

/-! # Reading type expressions

A type is one component, or an intersection of components joined by `&`. A component is a wildcard,
with or without a bound, or an array type; a bound is an array type. An array type is a named type
followed by pairs of brackets, and a named type is a name with or without type arguments.

A name means a type parameter in scope, else `null` or a primitive type, else a class. A generic
class without type arguments is raw. -/

namespace GenericCalls.TypeExpr

inductive Fault where
  | trailing
  | noClosing
  | noGreater
  | noName
  | noTypeArgs (name : String)
deriving DecidableEq, Repr, Inhabited

def Fault.message : Fault → String
  | trailing => "unexpected trailing input"
  | noClosing => "expected `]`"
  | noGreater => "expected `>`"
  | noName => "expected a type name"
  | noTypeArgs name => s!"`{name}` does not take type arguments"

/-- Why a type expression has no type. A fault of form is found at a byte offset. -/
inductive ReadError where
  | form (fault : Fault) (offset : Nat)
  | unknownName (name : String)
  | arity (name : String) (expected actual : Nat)
deriving DecidableEq, Repr, Inhabited

/-! ### Names -/

def resolve? (s : Store) (scope : Scope) (name : String) : Option Ty :=
  match scope.get? name with
  | some p => some (.param p)
  | none =>
    if name = "null" then some .null
    else
      match Primitive.ofName? name with
      | some p => some (.prim p)
      | none => (s.classNamed? name).map Ty.raw

/-- The class that a name with type arguments means. A type parameter in scope hides it. -/
def genericClass? (s : Store) (scope : Scope) (name : String) : Option ClassId :=
  if scope.contains name then none else s.classNamed? name

/-- The type that a name with type arguments means; `start` is the offset of the name. -/
def applyName (s : Store) (scope : Scope) (name : String) (start : Nat) (args : List Ty) :
    Except ReadError Ty :=
  match genericClass? s scope name with
  | some c =>
    let expected := (s.classParams c).length
    if expected = args.length then .ok (.cls c args) else .error (.arity name expected args.length)
  | none =>
    match resolve? s scope name with
    | some _ => .error (.form (.noTypeArgs name) start)
    | none => .error (.unknownName name)

/-! ### The grammar -/

/-- The offset at which tokens go on, where `stop` is the length of the expression in bytes. -/
def offset (stop : Nat) : List Token → Nat
  | [] => stop
  | t :: _ => t.start

/-- What is known while an expression is read: the declarations, the scope and the length of the
expression in bytes. -/
structure Reading where
  store : Store
  scope : Scope
  stop : Nat

/-- The tokens after a symbol, if they start with it. -/
def eat? (symbol : Symbol) : List Token → Option (List Token)
  | ⟨.symbol s, _⟩ :: rest => if s = symbol then some rest else none
  | _ => none

def readBrackets (r : Reading) (t : Ty) : List Token → Except ReadError (Ty × List Token)
  | ⟨.symbol .opening, _⟩ :: ⟨.symbol .closing, _⟩ :: rest => readBrackets r (.array t) rest
  | ⟨.symbol .opening, _⟩ :: rest => .error (.form .noClosing (offset r.stop rest))
  | ts => .ok (t, ts)

mutual
def readType (r : Reading) : Nat → List Token → Except ReadError (Ty × List Token)
  | 0, ts => .error (.form .noName (offset r.stop ts))
  | n + 1, ts => do
    let (first, ts) ← readComponent r n ts
    match eat? .ampersand ts with
    | none => return (first, ts)
    | some ts =>
      let (rest, ts) ← readComponents r n ts
      return (.inter (first :: rest), ts)
def readComponents (r : Reading) : Nat → List Token → Except ReadError (List Ty × List Token)
  | 0, ts => .error (.form .noName (offset r.stop ts))
  | n + 1, ts => do
    let (first, ts) ← readComponent r n ts
    match eat? .ampersand ts with
    | none => return ([first], ts)
    | some ts =>
      let (rest, ts) ← readComponents r n ts
      return (first :: rest, ts)
def readComponent (r : Reading) : Nat → List Token → Except ReadError (Ty × List Token)
  | 0, ts => .error (.form .noName (offset r.stop ts))
  | n + 1, ⟨.symbol .question, _⟩ :: ⟨.name "extends", _⟩ :: ts => do
    let (b, ts) ← readArray r n ts
    return (.extending b, ts)
  | n + 1, ⟨.symbol .question, _⟩ :: ⟨.name "super", _⟩ :: ts => do
    let (b, ts) ← readArray r n ts
    return (.above b, ts)
  | _ + 1, ⟨.symbol .question, _⟩ :: ts => return (.anything, ts)
  | n + 1, ts => readArray r n ts
def readArray (r : Reading) : Nat → List Token → Except ReadError (Ty × List Token)
  | 0, ts => .error (.form .noName (offset r.stop ts))
  | n + 1, ts => do
    let (t, ts) ← readNamed r n ts
    readBrackets r t ts
def readNamed (r : Reading) : Nat → List Token → Except ReadError (Ty × List Token)
  | n + 1, ⟨.name name, start⟩ :: ts =>
    match eat? .less ts with
    | none =>
      match resolve? r.store r.scope name with
      | some t => .ok (t, ts)
      | none => .error (.unknownName name)
    | some ts => do
      let (args, ts) ← readArgs r n ts
      match eat? .greater ts with
      | none => .error (.form .noGreater (offset r.stop ts))
      | some ts =>
        let t ← applyName r.store r.scope name start args
        return (t, ts)
  | _, ts => .error (.form .noName (offset r.stop ts))
def readArgs (r : Reading) : Nat → List Token → Except ReadError (List Ty × List Token)
  | 0, ts => .error (.form .noName (offset r.stop ts))
  | n + 1, ts => do
    let (first, ts) ← readType r n ts
    match eat? .comma ts with
    | none => return ([first], ts)
    | some ts =>
      let (rest, ts) ← readArgs r n ts
      return (first :: rest, ts)
end

def read (s : Store) (scope : Scope) (input : String) : Except ReadError Ty := do
  let ts := tokens input
  let r : Reading := ⟨s, scope, input.utf8ByteSize⟩
  let (t, rest) ← readType r (6 * ts.length + 6) ts
  if rest.isEmpty then return t else .error (.form .trailing (offset r.stop rest))

end GenericCalls.TypeExpr
