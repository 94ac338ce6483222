import GenericCalls.Inference.Answer
import GenericCalls.Ranking.Applicability

/-! # Ranking calls

Ranks the candidates of a call. The arguments are typed first, once for all candidates: wildcards in
their type arguments are captured, and nested calls are evaluated by ranking them. Then each
candidate gets a substitution, a phase and an answer to whether it may be accessed.

Ranking re-enters itself, for nested calls and for enclosing calls. Each re-entry takes room in a
guard of the session, so the room of both guards bounds the nesting. -/

namespace GenericCalls.Engine

/-! ### Typing arguments -/

/-- The type of a call, from its ranking: the return type of its only best candidate under that
candidate's substitution, with its wildcards captured. -/
def typeOfRanked (e : Engine) : Ranked → Run (Option Ty)
  | .error _ => return none
  | .ok ranking =>
    match ranking.uniqueBest? with
    | none => return none
    | some c =>
      match e.store.method? c.method with
      | none => return none
      | some method =>
        return some (← Run.capture (instantiate e.store c.substitution method.returns))

/-- The type of a call, where `rank` ranks a call; none while the call is being evaluated. -/
def callTypeWith (e : Engine) (rank : CallId → Run Ranked) (call : CallId) : Run (Option Ty) := do
  match ← Run.evaluating call (rank call) with
  | some ranked => e.typeOfRanked ranked
  | none => return none

/-- An argument with its type, where `rank` ranks a call. A blocked call has none. -/
def typeArg (e : Engine) (rank : CallId → Run Ranked) : Argument → Run TypedArg
  | .known none => return {}
  | .known (some t) => return { ty := some (← Run.capture t) }
  | .call c => do
    if ← Run.isBlocked c then
      return { call := some c }
    else
      return { ty := ← e.callTypeWith rank c, call := some c }

def typeArgs (e : Engine) (rank : CallId → Run Ranked) : List Argument → Run (List TypedArg)
  | [] => return []
  | a :: rest => do
    let t ← e.typeArg rank a
    let ts ← e.typeArgs rank rest
    return t :: ts

/-! ### Ranking candidates -/

/-- The substitution of a candidate, where `rank` ranks a call. Explicit type arguments are taken as
they are; in the wrong number they erase the type parameters. -/
def candidateSubstitution (e : Engine) (rank : CallId → Run Ranked) (site : CallSite)
    (method : MethodDecl) (args : List TypedArg) : Run Substitution :=
  if method.typeParams.isEmpty then return site.given
  else if site.typeArgs.isEmpty then
    e.inferWith rank (.ofMethod method args site.given (some site.id))
  else if site.typeArgs.length = method.typeParams.length then
    return site.given.merge (.ofArgs method.typeParams site.typeArgs)
  else return site.given.eraseAll method.typeParams

def rankCandidate (e : Engine) (rank : CallId → Run Ranked) (site : CallSite) (args : List TypedArg)
    (id : MethodId) (method : MethodDecl) : Run Candidate := do
  let σ ← e.candidateSubstitution rank site method args
  return ⟨id, σ, phaseOf e.store method σ args, e.access method site.caller⟩

/-- Candidates of a call, ranked one after another, where `rank` ranks a call. A method that is not
declared ends the ranking. -/
def rankCandidates (e : Engine) (rank : CallId → Run Ranked) (site : CallSite)
    (args : List TypedArg) : List MethodId → Run (Except RankError (List Candidate))
  | [] => return .ok []
  | id :: rest =>
    match e.store.method? id with
    | none => return .error (.unknownMethod id)
    | some method => do
      let c ← e.rankCandidate rank site args id method
      match ← e.rankCandidates rank site args rest with
      | .ok cs => return .ok (c :: cs)
      | .error err => return .error err

def rankSiteWith (e : Engine) (rank : CallId → Run Ranked) (site : CallSite) : Run Ranked := do
  let args ← e.typeArgs rank site.args
  match ← e.rankCandidates rank site args site.candidates with
  | .ok cs => return .ok ⟨site.id, sortByTier cs⟩
  | .error err => return .error err

/-- Ranks the candidates of a call with at most so many rankings nested in one another, itself
included. -/
def rankWithin (e : Engine) : Nat → CallId → Run Ranked
  | 0, _ => throw .nestedTooDeep
  | n + 1, call =>
    match e.calls.site? call with
    | none => return .error (.unknownCall call)
    | some site => e.rankSiteWith (e.rankWithin n) site

/-! ### Entry points -/

def rankCall (e : Engine) (call : CallId) (s : Session) : Ranked × Session :=
  Run.settle (.error (.unknownCall call)) (e.rankWithin s.nesting call) s

def rankSite (e : Engine) (site : CallSite) (s : Session) : Ranked × Session :=
  Run.settle (.error (.unknownCall site.id)) (e.rankSiteWith (e.rankWithin s.nesting) site) s

def callType (e : Engine) (call : CallId) (s : Session) : Option Ty × Session :=
  Run.settle none (e.callTypeWith (e.rankWithin s.nesting) call) s

def infer (e : Engine) (r : Request) (s : Session) : Substitution × Session :=
  Run.settle (r.given.eraseAll r.typeParams) (e.inferWith (e.rankWithin s.nesting) r) s

def inferOutcomes (e : Engine) (r : Request) (s : Session) : List (ParamId × Outcome) × Session :=
  let (σ, s) := e.infer r s
  (r.typeParams.map fun p => (p, e.outcome σ p), s)

/-- Judges one type parameter of a request in a session, without regard to its siblings. -/
def inferParam (e : Engine) (r : Request) (p : ParamId) (s : Session) : Option Ty × Session :=
  let (v, s) := Run.settle .unresolved (e.judge (e.rankWithin s.nesting) r p) s
  (v.ty?, s)

end GenericCalls.Engine
