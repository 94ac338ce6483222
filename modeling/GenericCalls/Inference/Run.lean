import GenericCalls.Session.Basic

/-! # Computations in a session

Inference re-enters itself through nested calls: it ranks an enclosing call for the type that it
expects, and evaluates a nested call for the type that it has. Both are done under a guard of the
session. A computation that leaves a guard it has not entered, or whose calls nest deeper than its
budget, is at fault. -/

namespace GenericCalls

inductive Fault where
  /-- Calls are nested deeper than the budget of the computation. -/
  | nestedTooDeep
  /-- A guard was left with a call that had not entered it. -/
  | leftUnentered (call : CallId)
deriving DecidableEq, Repr, Inhabited

abbrev Run := StateT Session (Except Fault)

namespace Run

def modifyGuard (f : CallGuard → CallGuard) : Run Unit :=
  modify fun s => { s with guard := f s.guard }

def capture (t : Ty) : Run Ty := modifyGet fun s => s.capture t

def isBlocked (call : CallId) : Run Bool := do return (← get).guard.isBlocked call

def enter (w : Gate) (call : CallId) : Run Entry :=
  modifyGet fun s =>
    let (e, g) := (s.guard.gate w).enter call
    (e, { s with guard := s.guard.setGate g w })

def leave (w : Gate) (call : CallId) : Run Unit := do
  match ((← get).guard.gate w).leave? call with
  | some g => modifyGuard fun h => h.setGate g w
  | none => throw (.leftUnentered call)

/-- Consults the call `outer` on behalf of its argument `inner`, which is blocked meanwhile. Nothing
is done if `outer` may not be entered. -/
def consulting {α : Type} (outer inner : CallId) (body : Run α) : Run (Option α) := do
  if (← enter .context outer).isDenied then
    return none
  modifyGuard (·.block inner)
  let a ← body
  modifyGuard (·.unblock inner)
  leave .context outer
  return some a

/-- Evaluates a call. Nothing is done if it may not be entered. -/
def evaluating {α : Type} (call : CallId) (body : Run α) : Run (Option α) := do
  if (← enter .evaluation call).isDenied then
    return none
  let a ← body
  leave .evaluation call
  return some a

/-- The result of a computation and the session it leaves; the default and the old session if it is
at fault. -/
def settle {α : Type} (default : α) (m : Run α) (s : Session) : α × Session :=
  match m.run s with
  | .ok r => r
  | .error _ => (default, s)

end Run

/-- How many rankings may be nested in a session, at most: one, and one more for each call that the
two guards still let in. -/
def Session.nesting (s : Session) : Nat :=
  1 + s.guard.evaluating.room + s.guard.context.room

end GenericCalls
