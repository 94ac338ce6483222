import GenericCalls.Assignable
import GenericCalls.Inference.Request
import GenericCalls.Inference.Run
import GenericCalls.Match.Basic
import GenericCalls.Ranking.Resolution

/-! # Evidence from the surrounding context

A method type parameter that the arguments leave open may follow from the type that the construct
around the call expects: the return type of the method is matched against it. For a call that is an
argument, the enclosing call is ranked first, and the formals of its candidates are tried in order.
Without an expected type the root class is taken, or `null` when guessing.

Only type parameters of methods look outward, and only from calls of methods: a constructor call
never takes its type from its context. -/

namespace GenericCalls.Engine

/-! ### Expected types -/

/-- The call whose context may tell of a type parameter. -/
def contextSite? (e : Engine) (p : ParamId) (r : Request) : Option CallSite :=
  match (e.store.param? p).map ParamDecl.owner with
  | some (.method _) =>
    (r.call.bind e.calls.site?).filter fun site => site.kind == .method
  | _ => none

theorem exists_call_of_contextSite {e : Engine} {p : ParamId} {r : Request} {site : CallSite}
    (h : e.contextSite? p r = some site) :
    ∃ call, r.call = some call ∧ e.calls.site? call = some site := by
  unfold contextSite? at h
  split at h
  · obtain ⟨hsite, _⟩ := Option.filter_eq_some_iff.1 h
    exact Option.bind_eq_some_iff.1 hsite
  · cases h

/-- Narrows a guess to the declared bounds, one after another: a bound that does not accept the
guess replaces it if the guess accepts the bound, and ends the walk otherwise. -/
def narrow (s : Store) (given : Substitution) (p : ParamId) : Ty → List Ty → Ty
  | guess, [] => guess
  | guess, b :: bs =>
    match (given.putTy p guess).substitute b with
    | none => guess
    | some b =>
      if s.assignable b guess then narrow s given p guess bs
      else if s.assignable guess b then narrow s given p b bs
      else guess

/-- The answer that an expected type gives. A guess is a wildcard from above, and is narrowed to the
bounds of the parameter when the method returns the parameter itself. -/
def refine (e : Engine) (p : ParamId) (r : Request) (c : Constraint) : Constraint :=
  let guess := if e.options.isBestEffort && !c.ty.isWild then Ty.extending c.ty else c.ty
  if r.method.returns.isParam p then
    ⟨narrow e.store r.given p guess (e.store.bounds p), c.bearing⟩
  else ⟨guess, c.bearing⟩

/-- The answer when the expected type gives none: the primary bound of the parameter, with the
parameter erased in it, as an upper bound, or as a guess. -/
def fromBound (e : Engine) (p : ParamId) (r : Request) : Constraint :=
  let bound := ((e.store.primaryBound? p).bind (r.given.put p .erased).substitute).getD
    e.store.object
  if e.options.isBestEffort && !bound.isWild then ⟨.extending bound, .exactly⟩
  else ⟨bound, .atMost⟩

/-- The answer from an expected type, or from the lack of one. -/
def fromExpected (e : Engine) (p : ParamId) (r : Request) (expected : Option Ty) : Constraint :=
  let expected := expected.getD (if e.options.isBestEffort then .null else e.store.object)
  match e.store.constrain p .intoContext r.method.returns expected with
  | .found c => e.refine p r c
  | _ => e.fromBound p r

/-! ### Enclosing calls -/

/-- The type of the formal that takes an argument of the type `returns` at a position. An array may
be passed whole to the formal of variable arity. -/
def formalFor? (method : MethodDecl) (index : Nat) (returns : Ty) : Option Ty :=
  if method.isVariadicAt index then
    method.formals.getLast?.map fun last =>
      match last.ty.component?, returns.component? with
      | some c, some _ => if index + 1 = method.formals.length then last.ty else c
      | some c, none => c
      | none, _ => last.ty
  else (method.formals[index]?).map Formal.ty

/-- A type under a substitution; its erasure if the substitution erases it. -/
def instantiate (s : Store) (σ : Substitution) (t : Ty) : Ty := (σ.substitute t).getD (s.erasure t)

/-- The constraint that a candidate of an enclosing call puts on a type parameter, through the
formal at the position of the call that returns `returns`. -/
def fromCandidate? (e : Engine) (p : ParamId) (index : Nat) (returns : Ty) (c : Candidate) :
    Option Constraint := do
  let method ← e.store.method? c.method
  let formal ← formalFor? method index returns
  (e.store.constrain p .intoContext returns (instantiate e.store c.substitution formal)).constraint?

/-- The constraint that an enclosing call puts on a type parameter of its argument `inner`: that of
its first candidate that puts one, where `rank` ranks a call. -/
def fromOuterCall? (e : Engine) (rank : CallId → Run Ranked) (p : ParamId) (inner outer : CallId)
    (index : Nat) (returns : Ty) : Run (Option Constraint) := do
  match ← Run.consulting outer inner (rank outer) with
  | some (.ok ranking) =>
    return ranking.candidates.findSome? (e.fromCandidate? p index returns)
  | _ => return none

/-- What the context of a call says about a type parameter, where `rank` ranks a call. -/
def fromContext? (e : Engine) (rank : CallId → Run Ranked) (p : ParamId) (r : Request) :
    Run (Option Constraint) :=
  match r.call, e.contextSite? p r with
  | some call, some site =>
    match site.context with
    | .standalone => return some (e.fromExpected p r none)
    | .initial t => return some (e.fromExpected p r (some t))
    | .assignment t => return some (e.fromExpected p r (some t))
    | .returned t => return some (e.fromExpected p r t)
    | .argument outer index => do
      if e.options.usesOuterContext then
        if let some c ← e.fromOuterCall? rank p call outer index r.method.returns then
          return some c
      return some (e.fromExpected p r none)
  | _, _ => return none

end GenericCalls.Engine
