import GenericCalls.Match.Constraint
import GenericCalls.Store.Bounds

/-! # Matching patterns against types

A pattern is a type in which one type parameter, the target, is sought. Matching a pattern against a
type tells what the type says about the target. Both sides are first brought to the same class: an
argument is seen at the class of the formal that takes it, a return type at the class that is
expected of it. Type arguments are then compared place by place.

Supertypes may be written with ever larger type arguments, so that matching may take very many
nested steps and need not end; it is given a budget of steps far beyond the sizes of the types, and
says nothing when it runs out. -/

namespace GenericCalls.Store

/-! ### Bringing both sides to one class -/

/-- A type seen at a class, in at most so many steps: a parameter through its bounds, an
intersection through its components, the first that leads there. -/
def liftWithin (s : Store) (c : ClassId) : Nat → Ty → Option ClassTy
  | 0, _ => none
  | _ + 1, .cls d args => (s.ancestorArgs ⟨d, args⟩ c).map (⟨c, ·⟩)
  | n + 1, .param p =>
    match s.bounds p with
    | [] => s.liftWithin c n s.object
    | bs => bs.findSome? fun b => s.liftWithin c n b
  | n + 1, .inter ts => ts.findSome? fun t => s.liftWithin c n t
  | _ + 1, _ => none

/-- The wildcard `?` in the type arguments of a class becomes `? extends B`, where `B` is the
primary bound of the parameter in its place, unless that is the root class or mentions a parameter
of the class. -/
def promote (s : Store) (c : ClassId) (index : Nat) : Ty → Ty
  | .wild kind none =>
    let params := s.classParams c
    match (params[index]?).bind s.primaryBound? with
    | some b =>
      if s.isObject b || params.any (fun p => b.mentions p) then .wild kind none
      else .extending b
    | none => .wild kind none
  | t => t

def promoteAll (s : Store) (c : ClassTy) : List Ty :=
  c.args.mapIdx fun i t => s.promote c.id i t

/-- Patterns and type arguments in pairs; none unless there are as many of both. -/
def pairArgs (patterns args : List Ty) : List (Ty × Ty) :=
  if patterns.length = args.length then patterns.zip args else []

theorem mem_of_pairArgs {patterns args : List Ty} {p t : Ty}
    (h : (p, t) ∈ pairArgs patterns args) : p ∈ patterns ∧ t ∈ args := by
  unfold pairArgs at h
  split at h
  · exact List.of_mem_zip h
  · cases h

/-! ### Matching type arguments -/

/-- Matches type arguments place by place, given the wildcard captured so far, where `go` matches
one place. The first result that is no wildcard stands; a second captured wildcard makes the match
fail. -/
def matchArgs (go : Ty → Ty → Option MatchResult) :
    Option Constraint → List (Ty × Ty) → Option MatchResult
  | captured, [] => some ((captured.map MatchResult.found).getD .noInfo)
  | captured, (p, t) :: rest =>
    match go p t with
    | none => none
    | some .noInfo => matchArgs go captured rest
    | some (.found c) =>
      if c.ty.isWild then
        match captured with
        | some _ => some .failed
        | none => matchArgs go (some c) rest
      else some (.found c)
    | some r => some r

/-- Joins the results of matching the type arguments of a wildcard's bound. The first result stands,
unless two or more places capture a wildcard. -/
def joinBoundResults (results : List MatchResult) : MatchResult :=
  if 2 ≤ results.countP MatchResult.isWild then .failed
  else (results.find? fun r => !r.isNoInfo).getD .noInfo

/-- Matches the arguments of a wildcard's bound place by place, where `go` matches one place. -/
def matchBoundArgs (go : Ty → Ty → Option MatchResult) (pairs : List (Ty × Ty)) :
    Option MatchResult :=
  (pairs.mapM fun p => go p.1 p.2).map joinBoundResults

/-- Whether the target stands in a type argument itself, or as the bound of a wildcard there. -/
def holdsTarget (target : ParamId) : Ty → Bool
  | .param p => p == target
  | .wild _ (some b) => b.isParam target
  | _ => false

/-! ### Matching -/

/-- Matches two types of one class. A raw type against a parameterised pattern says that the target
has to be erased, where it stands in the type arguments themselves. -/
def matchClass (s : Store) (target : ParamId) (go : Ty → Ty → Option MatchResult)
    (pattern arg : ClassTy) : Option MatchResult :=
  if arg.args.isEmpty && !pattern.args.isEmpty then
    some (if pattern.args.any (holdsTarget target) then .raw else .noInfo)
  else
    matchArgs go none (pairArgs pattern.args (s.promoteAll arg))

/-- Matches the bound of a wildcard against a type, where `go` matches parts with a bearing at the
same depth and `deeper` matches type arguments. An upper bound takes the type as seen at the class
of the bound, a lower bound is itself seen at the class of the type. -/
def matchBound (s : Store) (target : ParamId) (go : Ty → Ty → Bearing → Option MatchResult)
    (deeper : Ty → Ty → Option MatchResult) (kind : WildcardKind) (bound arg : Ty) :
    Option MatchResult :=
  let bearing := match kind with
    | .upper => .atLeast
    | .lower => .atMost
  match arg with
  | .wild k b =>
    if k = kind then
      match b with
      | some b => go bound b bearing
      | none => some .noInfo
    else some .noInfo
  | arg =>
    if bound.isParam target then go bound arg bearing
    else
      match bound, arg with
      | .array b, .array t => go b t bearing
      | .cls c cs, .cls d ds =>
        let pairs := match kind with
          | .upper => (s.ancestorArgs ⟨d, ds⟩ c).map fun lifted => pairArgs cs lifted
          | .lower => (s.ancestorArgs ⟨c, cs⟩ d).map fun lifted => pairArgs lifted ds
        match pairs with
        | some pairs => matchBoundArgs deeper pairs
        | none => some .noInfo
      | _, _ => some .noInfo

/-- One step of matching, where `go` matches the parts with a bearing at a depth. A captured
wildcard is matched as the wildcard it captures. -/
def matchStep (s : Store) (target : ParamId)
    (go : Ty → Ty → Bearing → Nat → Option MatchResult) (pattern arg : Ty) (bearing : Bearing)
    (depth : Nat) : Option MatchResult :=
  let arg := arg.reopen
  let deeper (p t : Ty) : Option MatchResult := go p t .exactly (depth + 1)
  if pattern.isParam target then
    if arg.isWild && decide (Limits.captureDepth ≤ depth) then some .failed
    else if arg.isNull || arg.isUnknown then some .noInfo
    else some (.found ⟨arg, bearing⟩)
  else
    match pattern, arg with
    | .array p, .array t => go p t bearing depth
    | .wild _ none, _ => some .noInfo
    | .wild kind (some bound), arg =>
      s.matchBound target (fun p t r => go p t r depth) deeper kind bound arg
    | .cls c cs, .cls d ds =>
      if c = d then s.matchClass target deeper ⟨c, cs⟩ ⟨d, ds⟩ else some .noInfo
    | _, _ => some .noInfo

/-- Matches a pattern against a type with a bearing, at a depth of type arguments, in at most so
many nested steps. -/
def matchWithin (s : Store) (target : ParamId) :
    Nat → Ty → Ty → Bearing → Nat → Option MatchResult
  | 0, _, _, _, _ => none
  | n + 1, pattern, arg, bearing, depth =>
    s.matchStep target (s.matchWithin target n) pattern arg bearing depth

def matchBudget (pattern arg : Ty) : Nat := pattern.size + arg.size + Limits.matchSteps

/-- Matches a pattern against a type with a bearing, at a depth of type arguments. -/
def matchTypes (s : Store) (target : ParamId) (pattern arg : Ty) (bearing : Bearing) (depth : Nat) :
    MatchResult :=
  (s.matchWithin target (matchBudget pattern arg) pattern arg bearing depth).getD .noInfo

/-- Matches a class type pattern against a type after bringing both to one class. -/
def constrainClass (s : Store) (target : ParamId) (flow : Flow) (pattern : ClassTy) (arg : Ty) :
    MatchResult :=
  match flow, arg with
  | .intoFormal, arg =>
    match s.liftWithin pattern.id Limits.liftSteps arg with
    | some lifted => s.matchTypes target pattern.toTy lifted.toTy .atLeast 0
    | none => .noInfo
  | .intoContext, .cls d args =>
    match s.ancestorArgs pattern d with
    | some lifted => s.matchTypes target (.cls d lifted) (.cls d args) .atLeast 0
    | none => .noInfo
  | .intoContext, _ => .noInfo

/-- What a type says about the target when values flow between it and a declared type: the formal
that takes the type, or the return type of which the type is expected. Arrays are entered on both
sides together, and a primitive type is boxed. -/
def constrain (s : Store) (target : ParamId) (flow : Flow) (declared arg : Ty) : MatchResult :=
  match declared, arg with
  | .array p, .array t => s.constrain target flow p t
  | .param p, arg =>
    match s.box? arg with
    | some arg =>
      if p = target && !arg.isNull && !arg.isUnknown then .found ⟨arg, .atLeast⟩ else .noInfo
    | none => .noInfo
  | .cls c cs, arg =>
    match s.box? arg with
    | some arg => s.constrainClass target flow ⟨c, cs⟩ arg
    | none => .noInfo
  | _, _ => .noInfo

end GenericCalls.Store
