import GenericCalls.Inference.Request
import GenericCalls.Lub
import GenericCalls.Match.Basic

/-! # Evidence from arguments

What the arguments of a call say about one type parameter. The first type that the parameter must
equal is the answer, and another one contradicts it. One wildcard may be captured. Lower bounds are
joined, and of upper bounds only the first is kept. -/

namespace GenericCalls

inductive Verdict where
  | resolved (c : Constraint)
  /-- There is no evidence. -/
  | unresolved
  /-- The evidence contradicts itself, so inference fails as a whole. -/
  | failed
  /-- An argument is raw, so all type parameters are erased. -/
  | raw
deriving Repr, Inhabited

namespace Verdict

/-- The answer, unless it is only an upper bound. -/
def exactTy? : Verdict → Option Ty
  | resolved c => if c.bearing = .atMost then none else some c.ty
  | _ => none

def upperTy? : Verdict → Option Ty
  | resolved c => if c.bearing = .atMost then some c.ty else none
  | _ => none

def isFatal : Verdict → Bool
  | failed | raw => true
  | _ => false

def ty? : Verdict → Option Ty
  | resolved c => some c.ty
  | _ => none

end Verdict

/-- The evidence gathered so far: the type that the parameter equals, the wildcard it captures, the
join of its lower bounds, and its first upper bound. -/
structure Evidence where
  exact : Option Ty := none
  captured : Option Ty := none
  lower : Option Ty := none
  upper : Option Ty := none
deriving Repr, Inhabited

/-- What arguments alone decide: a verdict, or only an upper bound, if even that. -/
inductive ArgumentVerdict where
  | decided (v : Verdict)
  | pending (upper : Option Ty)
deriving Repr, Inhabited

namespace Evidence

/-- The evidence with one more constraint. The result is a verdict when the constraint contradicts
what is known. -/
def addConstraint (s : Store) (e : Evidence) (c : Constraint) : Except Verdict Evidence :=
  match c.bearing with
  | .exactly =>
    if c.ty.isWild then
      if e.captured.isSome then .error .failed else .ok { e with captured := some c.ty }
    else .ok { e with exact := some c.ty }
  | .atLeast =>
    match e.lower with
    | none => .ok { e with lower := some c.ty }
    | some t =>
      if t == c.ty then .ok e
      else
        match s.lub t c.ty with
        | some u => .ok { e with lower := some u }
        | none => .error .failed
  | .atMost => .ok { e with upper := some (e.upper.getD c.ty) }

/-- The evidence with the result of one more match. Once the type that the parameter equals is
known, only a different such type matters. -/
def add (s : Store) (e : Evidence) (r : MatchResult) : Except Verdict Evidence :=
  match e.exact with
  | some t =>
    match r with
    | .found c =>
      if c.bearing = .exactly ∧ c.ty.isWild = false ∧ (c.ty == t) = false then .error .failed
      else .ok e
    | _ => .ok e
  | none =>
    match r with
    | .noInfo => .ok e
    | .failed => .error .failed
    | .raw => .error .raw
    | .found c => e.addConstraint s c

def addAll (s : Store) (e : Evidence) (rs : List MatchResult) : Except Verdict Evidence :=
  rs.foldlM (fun e r => e.add s r) e

/-- What the evidence decides. A captured wildcard has to agree with the bounds, and is joined with
a lower one. -/
def decide? (s : Store) (e : Evidence) : ArgumentVerdict :=
  match e.exact, e.captured, e.lower with
  | some t, _, _ => .decided (.resolved ⟨t, .exactly⟩)
  | none, some w, some b =>
    if s.assignable w b then
      match s.lub b w with
      | some t => .decided (.resolved ⟨t, .exactly⟩)
      | none => .decided .failed
    else .decided .failed
  | none, some w, none =>
    if e.upper.all fun b => s.assignable b w then .decided (.resolved ⟨w, .exactly⟩)
    else .decided .failed
  | none, none, some b => .decided (.resolved ⟨b, .exactly⟩)
  | none, none, none => .pending e.upper

end Evidence

/-- What the formals and arguments of a request say about a type parameter, match by match. -/
def Request.results (r : Request) (s : Store) (blocked : CallId → Bool) (p : ParamId) :
    List MatchResult :=
  (r.slots blocked).map fun (formal, arg) => s.constrain p .intoFormal formal arg

def Request.argumentVerdict (r : Request) (s : Store) (blocked : CallId → Bool) (p : ParamId) :
    ArgumentVerdict :=
  match ({} : Evidence).addAll s (r.results s blocked p) with
  | .ok e => e.decide? s
  | .error v => .decided v

end GenericCalls
