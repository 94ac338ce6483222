import GenericCalls.Store.Hierarchy

/-! # Boxing, bounds and erasure

Conversions between primitive types and their wrappers, the upper bound that a type variable stands
for, and the erasure of a type. Erasure follows declared bounds, which may run in circles through
arrays; it is given a budget of steps that nothing but such circles exhausts, and a type that
exhausts it erases to the root class. -/

namespace GenericCalls.Store

/-! ### Boxing -/

def boxed? (s : Store) (p : Primitive) : Option Ty := (s.wrapper p).map Ty.raw

def unboxed? (s : Store) : Ty → Option Primitive
  | .cls id _ => s.unwrapped? id
  | _ => none

/-- A primitive type becomes the type that wraps it; other types stay. -/
def box? (s : Store) : Ty → Option Ty
  | .prim p => s.boxed? p
  | t => some t

/-! ### Upper bounds -/

/-- The upper bound of a wildcard: the one it states, or the root class. -/
def wildcardUpper (s : Store) (w : Wildcard) : Ty := w.extendsBound?.getD s.object

/-- The upper bound that a wildcard or type parameter stands for. A parameter with several bounds
stands for their intersection. Other types are their own upper bound. -/
def upperBound (s : Store) : Ty → Ty
  | .wild kind b => s.wildcardUpper ⟨kind, b⟩
  | .captured _ kind b => s.wildcardUpper ⟨kind, b⟩
  | .param p =>
    match s.bounds p with
    | [] => s.object
    | [b] => b
    | bs => .inter bs
  | t => t

/-! ### Size of a store -/

/-- The number of type constructors that a declaration is written with, and one more. -/
def declWeight : Decl → Nat
  | .cls d => Ty.sizeAll (d.supertypes.map ClassTy.toTy) + 1
  | .param d => Ty.sizeAll d.bounds + 1
  | .method _ => 1

/-- The number of type constructors in all bounds and supertypes, and the number of declarations. It
bounds the recursions that follow declarations, where they end at all. -/
def weight (s : Store) : Nat := s.decls.foldl (fun n d => n + declWeight d) 0

/-! ### Erasure -/

/-- The first class or array type in the chain of primary bounds of a parameter; none if the chain
ends in another type, in no bound, or is longer than `n`. -/
def boundedBy? (s : Store) : Nat → ParamId → Option Ty
  | 0, _ => none
  | n + 1, p =>
    match s.primaryBound? p with
    | some (.param q) => s.boundedBy? n q
    | some (.cls c args) => some (.cls c args)
    | some (.array t) => some (.array t)
    | _ => none

/-- The erasure of a type, computed in at most so many nested steps. A class type loses its
arguments, a parameter erases like the class or array that bounds it, a wildcard like its upper
bound, an intersection like its first component. -/
def erasureWithin (s : Store) : Nat → Ty → Option Ty
  | 0, _ => none
  | _ + 1, .prim p => some (.prim p)
  | n + 1, .array t => (s.erasureWithin n t).map .array
  | _ + 1, .cls c _ => some (.raw c)
  | n + 1, .param p =>
    match s.boundedBy? Limits.boundChain p with
    | some b => s.erasureWithin n b
    | none => some s.object
  | n + 1, .wild kind b => s.erasureWithin n (s.wildcardUpper ⟨kind, b⟩)
  | n + 1, .captured _ kind b => s.erasureWithin n (s.wildcardUpper ⟨kind, b⟩)
  | _ + 1, .inter [] => some s.object
  | n + 1, .inter (t :: _) => s.erasureWithin n t
  | _ + 1, .null => some .null
  | _ + 1, .unknown => some .unknown

def erasureBudget (s : Store) (t : Ty) : Nat := Limits.erasureSteps + t.size + s.weight + 1

def erasure (s : Store) (t : Ty) : Ty := (s.erasureWithin (s.erasureBudget t) t).getD s.object

def paramErasure (s : Store) (p : ParamId) : Ty := s.erasure (.param p)

@[simp] theorem erasure_cls (s : Store) (c : ClassId) (args : List Ty) :
    s.erasure (.cls c args) = .raw c := by
  simp [erasure, erasureBudget, erasureWithin]

@[simp] theorem erasure_prim (s : Store) (p : Primitive) : s.erasure (.prim p) = .prim p := by
  simp [erasure, erasureBudget, erasureWithin]

theorem erasureWithin_mono (s : Store) {m n : Nat} {t r : Ty}
    (h : s.erasureWithin m t = some r) (hmn : m ≤ n) : s.erasureWithin n t = some r := by
  fun_induction erasureWithin s m t generalizing n r with
  | case1 => cases h
  | case3 m t ih =>
    obtain ⟨n, rfl⟩ : ∃ k, n = k + 1 := ⟨n - 1, by omega⟩
    simp only [Option.map_eq_some_iff] at h
    obtain ⟨u, hu, rfl⟩ := h
    simp [erasureWithin, ih hu (Nat.le_of_succ_le_succ hmn)]
  | _ =>
    obtain ⟨n, rfl⟩ : ∃ k, n = k + 1 := ⟨n - 1, by omega⟩
    simp_all [erasureWithin]

end GenericCalls.Store
