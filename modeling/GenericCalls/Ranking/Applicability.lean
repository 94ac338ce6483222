import GenericCalls.Inference.Context

/-! # Applicability of candidates

In which phase a candidate applies to typed arguments. Arguments are checked against the formals
under the inferred substitution: first as subtypes, then with boxing, then with the last formal of a
variadic method taken apart. An argument without a known type fits every formal. -/

namespace GenericCalls.Engine

def fits (s : Store) (strict : Bool) (formal : Ty) (arg : TypedArg) : Bool :=
  match arg.ty with
  | none => true
  | some .unknown => true
  | some t => if strict then s.subtype formal t else s.assignable formal t

def fitAll (s : Store) (strict : Bool) (formals : List Ty) (args : List TypedArg) : Bool :=
  (formals.zip args).all fun (f, a) => fits s strict f a

/-- Whether the arguments fit the formals when the last formal, an array, is taken apart. -/
def fitVariadic (s : Store) (formals : List Ty) (args : List TypedArg) : Bool :=
  match formals.getLast?.bind Ty.component? with
  | none => false
  | some component =>
    let fixed := formals.dropLast
    decide (fixed.length ≤ args.length) && fitAll s false fixed (args.take fixed.length) &&
      (args.drop fixed.length).all (fits s false component)

/-- The phase in which a method under a substitution applies to arguments. -/
def phaseOf (s : Store) (method : MethodDecl) (σ : Substitution) (args : List TypedArg) : Phase :=
  let formals := method.formals.map fun f => instantiate s σ f.ty
  if args.length = formals.length ∧ fitAll s true formals args then .exact
  else if args.length = formals.length ∧ fitAll s false formals args then .boxing
  else if method.variadic ∧ fitVariadic s formals args then .variadic
  else .inapplicable

end GenericCalls.Engine
