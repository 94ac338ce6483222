import GenericCalls.Ty.Order

/-! # Constraints on a parameter

What the match of a pattern against a type says about the parameter that is sought: that it equals a
type, that a type bounds it from below or above, that it has to be erased, that nothing fits, or
nothing at all. -/

namespace GenericCalls

/-- The direction in which values flow: from an argument into a formal, or from a returned value
into a context that expects a type. -/
inductive Flow where
  | intoFormal | intoContext
deriving DecidableEq, Repr, Inhabited

/-- How a type bears on the sought parameter: the parameter is exactly the type, at least the type
(a supertype of it) or at most the type (a subtype of it). -/
inductive Bearing where
  | exactly | atLeast | atMost
deriving DecidableEq, Repr, Inhabited

def Bearing.flip : Bearing → Bearing
  | exactly => exactly
  | atLeast => atMost
  | atMost => atLeast

structure Constraint where
  ty : Ty
  bearing : Bearing
deriving Repr, Inhabited

namespace Constraint

def isCapture (c : Constraint) : Bool := c.bearing == .exactly && c.ty.isWild

end Constraint

inductive MatchResult where
  | noInfo
  | failed
  | raw
  | found (c : Constraint)
deriving Repr, Inhabited

namespace MatchResult

def constraint? : MatchResult → Option Constraint
  | found c => some c
  | _ => none

def ty? (r : MatchResult) : Option Ty := r.constraint?.map Constraint.ty

def isNoInfo : MatchResult → Bool
  | noInfo => true
  | _ => false

def isWild : MatchResult → Bool
  | found c => c.ty.isWild
  | _ => false

end MatchResult

end GenericCalls
