import GenericCalls.Primitive

/-! # Types

The types of the language: primitives, arrays, class types with type arguments, type parameters,
wildcards, captured wildcards and intersections. A class type without arguments is the raw form of
its class, or the type of a class that has no type parameters. -/

namespace GenericCalls

abbrev ClassId := Nat

abbrev ParamId := Nat

abbrev MethodId := Nat

abbrev CallId := Nat

abbrev CaptureId := Nat

/-- The side on which a wildcard is bounded: `? extends B` above, `? super B` below. -/
inductive WildcardKind where
  | upper | lower
deriving DecidableEq, Repr, Inhabited

inductive Ty where
  | prim (p : Primitive)
  | array (component : Ty)
  | cls (id : ClassId) (args : List Ty)
  | param (id : ParamId)
  | wild (kind : WildcardKind) (bound : Option Ty)
  | captured (id : CaptureId) (kind : WildcardKind) (bound : Option Ty)
  | inter (components : List Ty)
  | null
  | unknown
deriving Repr, Inhabited

structure ClassTy where
  id : ClassId
  args : List Ty
deriving Repr, Inhabited

/-- A wildcard with its bound; one without a bound is `?`. -/
structure Wildcard where
  kind : WildcardKind
  bound : Option Ty
deriving Repr, Inhabited

namespace ClassTy

def raw (id : ClassId) : ClassTy := ⟨id, []⟩

def toTy (c : ClassTy) : Ty := .cls c.id c.args

end ClassTy

namespace Wildcard

def extendsBound? : Wildcard → Option Ty
  | ⟨.upper, b⟩ => b
  | ⟨.lower, _⟩ => none

def superBound? : Wildcard → Option Ty
  | ⟨.lower, b⟩ => b
  | ⟨.upper, _⟩ => none

end Wildcard

namespace Ty

/-! ### Forms -/

def raw (id : ClassId) : Ty := .cls id []

def anything : Ty := .wild .upper none

def extending (b : Ty) : Ty := .wild .upper (some b)

def above (b : Ty) : Ty := .wild .lower (some b)

def isPrim : Ty → Bool
  | .prim _ => true
  | _ => false

def isWild : Ty → Bool
  | .wild _ _ => true
  | _ => false

def isNull : Ty → Bool
  | .null => true
  | _ => false

def isUnknown : Ty → Bool
  | .unknown => true
  | _ => false

def isReference : Ty → Bool
  | .prim _ | .unknown => false
  | _ => true

def isParam (p : ParamId) : Ty → Bool
  | .param q => q == p
  | _ => false

/-- Whether a type stands for an unknown type between bounds: a parameter or a wildcard, captured or
not. -/
def isVariable : Ty → Bool
  | .param _ | .wild _ _ | .captured _ _ _ => true
  | _ => false

def asClass? : Ty → Option ClassTy
  | .cls id args => some ⟨id, args⟩
  | _ => none

/-- The wildcard that a type is, if it is not captured. -/
def asWildcard? : Ty → Option Wildcard
  | .wild kind bound => some ⟨kind, bound⟩
  | _ => none

/-- The wildcard that a type is or captures. -/
def openWildcard? : Ty → Option Wildcard
  | .wild kind bound => some ⟨kind, bound⟩
  | .captured _ kind bound => some ⟨kind, bound⟩
  | _ => none

/-- A captured wildcard becomes the wildcard it captures; other types stay. -/
def reopen : Ty → Ty
  | .captured _ kind bound => .wild kind bound
  | t => t

def component? : Ty → Option Ty
  | .array t => some t
  | _ => none

def deepComponent : Ty → Ty
  | .array t => deepComponent t
  | t => t

/-! ### Occurrence and size -/

mutual
def mentions (p : ParamId) : Ty → Bool
  | .prim _ => false
  | .array t => mentions p t
  | .cls _ args => mentionsAny p args
  | .param q => q == p
  | .wild _ none => false
  | .wild _ (some b) => mentions p b
  | .captured _ _ none => false
  | .captured _ _ (some b) => mentions p b
  | .inter ts => mentionsAny p ts
  | .null => false
  | .unknown => false
def mentionsAny (p : ParamId) : List Ty → Bool
  | [] => false
  | t :: ts => mentions p t || mentionsAny p ts
end

theorem mentionsAny_eq_any (p : ParamId) (ts : List Ty) :
    mentionsAny p ts = ts.any (mentions p) := by
  induction ts with
  | nil => rfl
  | cons t ts ih => simp [mentionsAny, ih]

mutual
def size : Ty → Nat
  | .prim _ => 1
  | .array t => size t + 1
  | .cls _ args => sizeAll args + 1
  | .param _ => 1
  | .wild _ none => 1
  | .wild _ (some b) => size b + 1
  | .captured _ _ none => 1
  | .captured _ _ (some b) => size b + 1
  | .inter ts => sizeAll ts + 1
  | .null => 1
  | .unknown => 1
def sizeAll : List Ty → Nat
  | [] => 0
  | t :: ts => size t + sizeAll ts
end

theorem size_pos (t : Ty) : 0 < t.size := by
  cases t with
  | wild _ b => cases b <;> simp [size]
  | captured _ _ b => cases b <;> simp [size]
  | _ => simp [size]

theorem size_le_sizeAll {t : Ty} {ts : List Ty} (h : t ∈ ts) : t.size ≤ sizeAll ts := by
  induction ts with
  | nil => cases h
  | cons s ss ih =>
    rcases List.mem_cons.1 h with rfl | h
    · simp [sizeAll]
    · have := ih h
      simp only [sizeAll]
      omega

end Ty

end GenericCalls
