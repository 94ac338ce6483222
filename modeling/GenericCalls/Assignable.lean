import GenericCalls.Store.Bounds

/-! # Assignability

When a value of one type may be used where another is expected. In a loose context primitive types
are boxed and unboxed, in a strict one they are not. A raw class type is assignable both ways, and a
type that carries no information is assignable to nothing, not even to itself.

Bounds may run in circles, so checks nest only up to a limit; beyond it the answer is no. -/

namespace GenericCalls.Store

/-- Whether the type argument `arg` falls under the type argument `want`, where `check` decides the
assignability of bounds. -/
def containsArg (s : Store) (check : Ty → Ty → Bool) (want arg : Ty) : Bool :=
  match want with
  | .wild _ none => true
  | .wild .upper (some bound) =>
    match arg.openWildcard? with
    | some w =>
      match w.extendsBound? with
      | some b => check bound b
      | none => s.isObject bound
    | none => check bound arg
  | .wild .lower (some bound) =>
    match arg.openWildcard? with
    | some w =>
      match w.superBound? with
      | some b => check b bound
      | none => false
    | none => check arg bound
  | t => t == arg

def containsArgs (s : Store) (check : Ty → Ty → Bool) (wants args : List Ty) : Bool :=
  (wants.zip args).all fun p => s.containsArg check p.1 p.2

/-- Whether a class type is assignable to a class type: the target is an ancestor, and its type
arguments hold those with which it is seen. Between raw and parameterised types the arguments are
not checked. -/
def classAssignable (s : Store) (check : Ty → Ty → Bool) (target source : ClassTy) : Bool :=
  if target.id = s.root then true
  else
    match s.ancestorArgs source target.id with
    | none => false
    | some lifted =>
      if target.args.isEmpty || lifted.isEmpty || target.args.length != lifted.length then true
      else s.containsArgs check target.args lifted

/-- One check of assignability, where `check` decides the parts. -/
def assignableStep (s : Store) (boxing : Bool) (check : Ty → Ty → Bool) (target source : Ty) :
    Bool :=
  if target.isUnknown || source.isUnknown then false
  else if target == source then true
  else
    match target, source with
    | _, .null => true
    | .null, _ => false
    | .prim p, .prim q => q.widensTo p
    | .prim p, source => boxing && (s.unboxed? source).any (·.widensTo p)
    | target, .prim q =>
      boxing && match s.boxed? q with
        | some b => check target b
        | none => false
    | .wild _ none, source => source.isReference
    | .wild _ (some bound), source => check bound source
    | .inter ts, source => ts.all fun t => check t source
    | target, .inter ts => ts.any fun t => check target t
    | target, .wild kind b => check target (s.wildcardUpper ⟨kind, b⟩)
    | target, .captured _ kind b => check target (s.wildcardUpper ⟨kind, b⟩)
    | target, .param p =>
      match s.bounds p with
      | [] => s.isObject target
      | bs => bs.any fun b => check target b
    | .array t, .array u => if t.isPrim || u.isPrim then t == u else check t u
    | .cls c _, .array _ => c == s.root
    | .cls c args, .cls d brgs => s.classAssignable check ⟨c, args⟩ ⟨d, brgs⟩
    | _, _ => false

/-- Whether `source` is assignable to `target`, decided with at most so many nested checks. -/
def assignableWithin (s : Store) (boxing : Bool) : Nat → Ty → Ty → Bool
  | 0, _, _ => false
  | n + 1, target, source => s.assignableStep boxing (s.assignableWithin boxing n) target source

/-- Whether a value of type `source` may be assigned to `target`, boxing and unboxing allowed. -/
def assignable (s : Store) (target source : Ty) : Bool :=
  s.assignableWithin true Limits.hierarchy target source

/-- Whether `source` is a subtype of `target`, without boxing. -/
def subtype (s : Store) (target source : Ty) : Bool :=
  s.assignableWithin false Limits.hierarchy target source

end GenericCalls.Store
