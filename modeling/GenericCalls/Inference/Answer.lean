import GenericCalls.Inference.Context
import GenericCalls.Inference.Evidence
import GenericCalls.Inference.Siblings

/-! # Answers of inference

A request is answered for all its type parameters or for none. Each parameter is judged by the
arguments and, where these leave it open, by the context; then open parameters are completed from
their siblings; what remains is bound to an upper bound. A parameter without answer, or with
contradicting or raw evidence, makes all of them erased. -/

namespace GenericCalls.Engine

/-- The verdict on a parameter that the arguments leave open, from what the context says and from an
upper bound. -/
def settleOpen (upper : Option Ty) : Option Constraint → Verdict
  | some c =>
    if c.bearing = .atMost then .resolved ⟨upper.getD c.ty, .atMost⟩ else .resolved c
  | none =>
    match upper with
    | some b => .resolved ⟨b, .atMost⟩
    | none => .unresolved

def judge (e : Engine) (rank : CallId → Run Ranked) (r : Request) (p : ParamId) : Run Verdict := do
  let blocked := (← get).guard.isBlocked
  match r.argumentVerdict e.store blocked p with
  | .decided v => return v
  | .pending upper => return settleOpen upper (← e.fromContext? rank p r)

def judgeAll (e : Engine) (rank : CallId → Run Ranked) (r : Request) :
    List ParamId → Run (List Verdict)
  | [] => return []
  | p :: ps => do
    let v ← e.judge rank r p
    let vs ← e.judgeAll rank r ps
    return v :: vs

/-- Binds each parameter to the type found for it, in addition to the given bindings; none if one
has no type. A type that mentions its own parameter is left out, so that the parameter stands for
itself. -/
def bindAll? (given : Substitution) : List (ParamId × Option Ty) → Option Substitution
  | [] => some given
  | (_, none) :: _ => none
  | (p, some t) :: rest => bindAll? (if t.mentions p then given else given.putTy p t) rest

/-- The types found for the parameters of a request: exact ones, those that follow from siblings,
and upper bounds for the rest. -/
def found (s : Store) (r : Request) (vs : List Verdict) : List (Option Ty) :=
  List.zipWith (fun t v => t.or v.upperTy?)
    (s.reconcile r.given r.typeParams (vs.map Verdict.exactTy?)) vs

/-- The substitution that verdicts on the parameters of a request lead to. -/
def conclude (s : Store) (r : Request) (vs : List Verdict) : Substitution :=
  if vs.any Verdict.isFatal then r.given.eraseAll r.typeParams
  else (bindAll? r.given (r.typeParams.zip (found s r vs))).getD (r.given.eraseAll r.typeParams)

/-- The substitution for the type parameters of a request, where `rank` ranks a call. -/
def inferWith (e : Engine) (rank : CallId → Run Ranked) (r : Request) : Run Substitution := do
  return conclude e.store r (← e.judgeAll rank r r.typeParams)

inductive Outcome where
  | resolved (t : Ty)
  | guess (t : Ty)
  | unbound
deriving Repr, Inhabited

/-- What is reported of a type parameter under a substitution. A wildcard from above is a guess when
inference may guess; a parameter without binding stands for itself. -/
def outcome (e : Engine) (σ : Substitution) (p : ParamId) : Outcome :=
  match σ.get? p with
  | some (.bound (.wild .upper b)) =>
    if e.options.isBestEffort then .guess (.wild .upper b) else .resolved (.wild .upper b)
  | some (.bound t) => .resolved t
  | some .erased => .unbound
  | none => .resolved (.param p)

/-! ### Pairs of types -/

/-- Joins upper bounds from left to right. An undefined join is forgotten with all before it. -/
def joinUpper (s : Store) : Option Ty → List Ty → Option Ty
  | acc, [] => acc
  | none, t :: ts => joinUpper s (some t) ts
  | some u, t :: ts => joinUpper s (s.lub u t) ts

/-- The type of a parameter from formals paired with types: the first that it is equated with, else
the join of its upper bounds, else its erasure. -/
def pairAnswer (s : Store) (pairs : List (Ty × Ty)) (p : ParamId) : Ty :=
  let cs := pairs.filterMap fun (formal, t) =>
    (s.constrain p .intoFormal formal t).constraint?
  ((Store.firstExact? cs).or (joinUpper s none (Store.upperBounds cs))).getD (s.paramErasure p)

structure LengthMismatch where
  expected : Nat
  actual : Nat
deriving DecidableEq, Repr, Inhabited

def LengthMismatch.message (m : LengthMismatch) : String :=
  s!"type lists must be of the same length (expected {m.expected}, got {m.actual})"

/-- The substitution for type parameters from formals paired with types. -/
def inferPairs (s : Store) (params : List ParamId) (formals types : List Ty) :
    Except LengthMismatch Substitution :=
  if formals.length = types.length then
    .ok (.ofList (params.map fun p => (p, .bound (pairAnswer s (formals.zip types) p))))
  else .error ⟨formals.length, types.length⟩

end GenericCalls.Engine
