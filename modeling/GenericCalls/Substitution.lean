import GenericCalls.KeyedList
import GenericCalls.Ty.Order

/-! # Substitutions

A substitution binds type parameters, each to a type or to nothing but its erasure. A parameter that
it does not bind stands for itself. Erasure spreads outward: a class type with an erased argument
becomes raw, a wildcard with an erased bound becomes `?`, and an array or an intersection with an
erased part is erased itself. -/

namespace GenericCalls

/-- What a substitution says of a parameter: the type it stands for, or that it is erased. -/
inductive Binding where
  | bound (t : Ty)
  | erased
deriving Repr, Inhabited

namespace Binding

def ty? : Binding → Option Ty
  | bound t => some t
  | erased => none

def isErased : Binding → Bool
  | bound _ => false
  | erased => true

def same : Binding → Binding → Bool
  | bound s, bound t => s == t
  | erased, erased => true
  | _, _ => false

end Binding

/-- Bindings of type parameters, in the order in which they were first made. -/
structure Substitution where
  bindings : KeyedList ParamId Binding
deriving Inhabited

namespace Substitution

/-! ### Bindings -/

def empty : Substitution := ⟨.empty⟩

instance : EmptyCollection Substitution := ⟨empty⟩

def get? (s : Substitution) (p : ParamId) : Option Binding := s.bindings.get? p

def ty? (s : Substitution) (p : ParamId) : Option Ty := (s.get? p).bind Binding.ty?

def contains (s : Substitution) (p : ParamId) : Bool := s.bindings.contains p

def size (s : Substitution) : Nat := s.bindings.size

def isEmpty (s : Substitution) : Bool := s.bindings.isEmpty

def toList (s : Substitution) : List (ParamId × Binding) := s.bindings.entries

def put (s : Substitution) (p : ParamId) (b : Binding) : Substitution := ⟨s.bindings.put p b⟩

def putTy (s : Substitution) (p : ParamId) (t : Ty) : Substitution := s.put p (.bound t)

/-- The substitution that a list of bindings makes; of two for one parameter the later wins. -/
def ofList (bs : List (ParamId × Binding)) : Substitution := ⟨.ofList bs⟩

def ofArgs (params : List ParamId) (args : List Ty) : Substitution :=
  ofList (List.zipWith (fun p t => (p, .bound t)) params args)

/-- The first substitution overridden by the bindings of the second. -/
def merge (s other : Substitution) : Substitution := ⟨s.bindings.putAll other.toList⟩

def eraseAll (s : Substitution) (params : List ParamId) : Substitution :=
  params.foldl (fun s p => s.put p .erased) s

def raw (params : List ParamId) : Substitution := empty.eraseAll params

/-- Whether all of `params` are erased. -/
def isRawFor (s : Substitution) (params : List ParamId) : Bool :=
  params.all fun p => (s.get? p).any Binding.isErased

def same (s other : Substitution) : Bool := s.bindings.agrees Binding.same other.bindings

theorem get?_put (s : Substitution) (p q : ParamId) (b : Binding) :
    (s.put p b).get? q = if p = q then some b else s.get? q :=
  KeyedList.get?_put s.bindings p q b

theorem get?_merge (s other : Substitution) (p : ParamId) :
    (s.merge other).get? p = (other.get? p).or (s.get? p) :=
  KeyedList.get?_putAll s.bindings other.bindings.distinct p

theorem get?_eraseAll (s : Substitution) (params : List ParamId) (p : ParamId) :
    (s.eraseAll params).get? p = if p ∈ params then some .erased else s.get? p := by
  unfold eraseAll
  induction params generalizing s with
  | nil => simp
  | cons q qs ih =>
    rw [List.foldl_cons, ih, get?_put]
    by_cases hq : q = p
    · simp [hq]
    · have hp : ¬p = q := fun e => hq e.symm
      simp [hq, hp]

/-! ### Application -/

/-- A wildcard on the side `kind` around a substituted bound. A bound that is itself a wildcard
collapses into it when both are on one side. -/
def rewrap (kind : WildcardKind) : Option Ty → Ty
  | none => Ty.anything
  | some (.wild inner b) => if inner = kind then .wild inner b else Ty.anything
  | some t => .wild kind (some t)

mutual
/-- A type with its parameters replaced as `f` says; `none` when it is erased. -/
def apply (f : ParamId → Option Binding) : Ty → Option Ty
  | .prim p => some (.prim p)
  | .array t => (apply f t).map .array
  | .cls c args => some (.cls c ((applyAll f args).getD []))
  | .param p =>
    match f p with
    | some (.bound t) => some t
    | some .erased => none
    | none => some (.param p)
  | .wild _ none => some Ty.anything
  | .wild kind (some b) => some (rewrap kind (apply f b))
  | .captured i kind b => some (.captured i kind b)
  | .inter ts => (applyAll f ts).map .inter
  | .null => some .null
  | .unknown => some .unknown
def applyAll (f : ParamId → Option Binding) : List Ty → Option (List Ty)
  | [] => some []
  | t :: ts =>
    match apply f t, applyAll f ts with
    | some t', some ts' => some (t' :: ts')
    | _, _ => none
end

/-- A type under the substitution; `none` when it is erased. The empty substitution changes
nothing. -/
def substitute (s : Substitution) (t : Ty) : Option Ty :=
  if s.isEmpty then some t else apply s.get? t

/-- A class type under the substitution; `none` when one of its arguments is erased. -/
def substituteClass (s : Substitution) (c : ClassTy) : Option ClassTy :=
  if s.isEmpty then some c else (applyAll s.get? c.args).map (⟨c.id, ·⟩)

theorem substitute_cls (s : Substitution) (c : ClassTy) :
    s.substitute c.toTy = some (((s.substituteClass c).getD (.raw c.id)).toTy) := by
  unfold substitute substituteClass
  split
  · rfl
  · cases h : applyAll s.get? c.args <;> simp [ClassTy.toTy, apply, h, ClassTy.raw]

end Substitution

end GenericCalls
