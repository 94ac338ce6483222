import GenericCalls.Call.Access
import GenericCalls.Call.Site
import GenericCalls.Match.Constraint
import GenericCalls.Session.Basic

/-! # Requests for inference

What inference works on: the declarations and calls at hand, and one callable with its arguments and
the bindings known beforehand. -/

namespace GenericCalls

/-- The declarations, the calls, the rule of access and the options under which inference runs. -/
structure Engine where
  store : Store
  calls : CallGraph := .empty
  access : AccessRule := .unrestricted
  options : Options := {}
deriving Inhabited

/-- An argument with its type, if it has one, and the call that it is, if it is one. -/
structure TypedArg where
  ty : Option Ty := none
  call : Option CallId := none
deriving Repr, Inhabited

/-- A callable whose type parameters are to be inferred: from its arguments, under the bindings
known beforehand, and at a call if it is known which. -/
structure Request where
  typeParams : List ParamId
  method : MethodDecl
  args : List TypedArg
  given : Substitution
  call : Option CallId := none
deriving Inhabited

namespace Request

def ofMethod (method : MethodDecl) (args : List TypedArg) (given : Substitution)
    (call : Option CallId := none) : Request :=
  ⟨method.typeParams, method, args, given, call⟩

/-- The formal and the argument that are matched at a position, for an argument of the type `t`. At
the formal of variable arity these are its component and the argument, or the component of the
argument if that is an array of references and there are as many arguments as formals. -/
def slot? (r : Request) (index : Nat) (t : Ty) : Option (Ty × Ty) :=
  (r.method.formalAt? index).map fun f =>
    match if r.method.isVariadicAt index then f.ty.component? else none with
    | none => (f.ty, t)
    | some c =>
      match if r.args.length = r.method.formals.length then t.component? else none with
      | none => (c, t)
      | some u => if u.isPrim then (c, t) else (c, u)

/-- The formals and arguments that are matched: of all arguments that are typed, are not blocked,
and have a formal. -/
def slots (r : Request) (blocked : CallId → Bool) : List (Ty × Ty) :=
  r.args.zipIdx.filterMap fun (a, index) =>
    if a.call.any blocked then none else a.ty.bind (r.slot? index)

end Request

end GenericCalls
