import GenericCalls.Session.RecursionGuard
import GenericCalls.Ty.Basic

/-! # Sessions

The state that one request of inference carries through its nested calls: which calls are blocked or
being evaluated, and how many wildcards have been captured. -/

namespace GenericCalls

/-- What inference does where evidence is missing. In best-effort mode a type that a context expects
is taken as a guess from above. -/
inductive Mode where
  | strict | bestEffort
deriving DecidableEq, Repr, Inhabited

structure Options where
  mode : Mode := .strict
  outerContext : Bool := true
deriving DecidableEq, Repr, Inhabited

namespace Options

def isBestEffort (o : Options) : Bool := o.mode == .bestEffort

/-- Whether an enclosing call is consulted for the type it expects; best effort always does so. -/
def usesOuterContext (o : Options) : Bool := o.outerContext || o.isBestEffort

end Options

/-- Where calls are let in: to be consulted as context, or to be evaluated. -/
inductive Gate where
  | context | evaluation
deriving DecidableEq, Repr, Inhabited

/-- Which calls are in use. A blocked call is skipped as an argument; it may be blocked more than
once. -/
structure CallGuard where
  blocked : List CallId := []
  context : RecursionGuard CallId := .ofMax Limits.enclosingCalls
  evaluating : RecursionGuard CallId := .ofMax Limits.evaluatedCalls
deriving Repr, Inhabited

namespace CallGuard

def gate (g : CallGuard) : Gate → RecursionGuard CallId
  | .context => g.context
  | .evaluation => g.evaluating

def setGate (g : CallGuard) (h : RecursionGuard CallId) : Gate → CallGuard
  | .context => { g with context := h }
  | .evaluation => { g with evaluating := h }

def block (g : CallGuard) (call : CallId) : CallGuard := { g with blocked := call :: g.blocked }

def unblock (g : CallGuard) (call : CallId) : CallGuard :=
  { g with blocked := g.blocked.erase call }

def isBlocked (g : CallGuard) (call : CallId) : Bool := decide (call ∈ g.blocked)

def isContext (g : CallGuard) (call : CallId) : Bool := g.context.isVisiting call

def isIdle (g : CallGuard) : Bool :=
  g.blocked.isEmpty && !g.context.isActive && !g.evaluating.isActive

@[simp]
theorem isBlocked_block (g : CallGuard) (call other : CallId) :
    (g.block call).isBlocked other = (decide (other = call) || g.isBlocked other) := by
  simp [block, isBlocked]

theorem isBlocked_block_of_isBlocked {g : CallGuard} {other : CallId}
    (h : g.isBlocked other = true) (call : CallId) : (g.block call).isBlocked other = true := by
  rw [isBlocked_block, h, Bool.or_true]

end CallGuard

/-- The state of a request: the calls in use, and the number of captures drawn so far. -/
structure Session where
  guard : CallGuard := {}
  captures : Nat := 0
deriving Repr, Inhabited

namespace Session

def freshCapture (s : Session) : CaptureId × Session :=
  (s.captures + 1, { s with captures := s.captures + 1 })

def captureArgs (s : Session) : List Ty → List Ty × Session
  | [] => ([], s)
  | .wild kind b :: ts =>
    let (id, s) := s.freshCapture
    let (ts, s) := captureArgs s ts
    (.captured id kind b :: ts, s)
  | t :: ts =>
    let (ts, s) := captureArgs s ts
    (t :: ts, s)

/-- Captures the wildcards that are type arguments of a class type; those deeper inside stay. -/
def capture (s : Session) : Ty → Ty × Session
  | .cls c args =>
    let (args, s) := s.captureArgs args
    (.cls c args, s)
  | t => (t, s)

theorem guard_captureArgs (s : Session) (ts : List Ty) : (s.captureArgs ts).2.guard = s.guard := by
  induction ts generalizing s with
  | nil => rfl
  | cons t ts ih =>
    cases t <;> simp [captureArgs, freshCapture, ih]

theorem guard_capture (s : Session) (t : Ty) : (s.capture t).2.guard = s.guard := by
  cases t <;> simp [capture, guard_captureArgs]

end Session

end GenericCalls
