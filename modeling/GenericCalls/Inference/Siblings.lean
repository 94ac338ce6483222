import GenericCalls.Lub
import GenericCalls.Match.Basic

/-! # Evidence from sibling parameters

A type parameter that the arguments leave open may follow from the declared bounds of a sibling
whose type is known: with `<T, L extends List<T>>` and a list of strings for `L`, `T` is a string.
The open parameters are visited once, in order of declaration; what is found for one helps those
after it. -/

namespace GenericCalls.Store

/-- The least upper bound of types, from left to right; none if there are no types, or a step has
none. -/
def lubAll (s : Store) : List Ty → Option Ty
  | [] => none
  | t :: ts => ts.foldlM (fun u v => s.lub u v) t

def firstExact? (cs : List Constraint) : Option Ty :=
  (cs.find? fun c => c.bearing == .exactly).map Constraint.ty

def lowerBounds (cs : List Constraint) : List Ty :=
  (cs.filter fun c => c.bearing == .atLeast).map Constraint.ty

def upperBounds (cs : List Constraint) : List Ty :=
  (cs.filter fun c => c.bearing == .atMost).map Constraint.ty

/-- The bounds of the siblings whose types are known, as the given bindings leave them, each with
the type of the sibling; `index` is the place of the open parameter. -/
def siblingBounds (s : Store) (given : Substitution) (params : List ParamId)
    (known : List (Option Ty)) (index : Nat) : List (Ty × Ty) :=
  (params.zip known).zipIdx.flatMap fun ((q, t), i) =>
    match t with
    | none => []
    | some t =>
      if i = index then []
      else (s.bounds q).filterMap fun b => (given.substitute b).map (·, t)

/-- What bounds of siblings say about a parameter, from first to last: `answer` is the join of its
lower bounds so far, and `failed` tells that this join broke down. An equation is the answer at
once, also after that. -/
def gather (s : Store) (p : ParamId) (answer : Option Ty) (failed : Bool) :
    List (Ty × Ty) → Option Ty
  | [] => answer
  | (bound, t) :: rest =>
    match s.constrain p .intoFormal bound t with
    | .found ⟨u, .exactly⟩ => some u
    | .found ⟨u, .atLeast⟩ =>
      if failed then s.gather p answer failed rest
      else
        let joined := match answer with
          | none => some u
          | some v => s.lub v u
        s.gather p joined joined.isNone rest
    | _ => s.gather p answer failed rest

/-- The type of an open parameter that follows from its siblings: the first that some bound equates
it with, else the join of those that bound it from below. -/
def fromSiblings (s : Store) (given : Substitution) (params : List ParamId)
    (known : List (Option Ty)) (index : Nat) (p : ParamId) : Option Ty :=
  s.gather p none false (s.siblingBounds given params known index)

/-- Visits the open parameters among `params`, which is a list of parameters with their places. -/
def reconcileFrom (s : Store) (given : Substitution) (params : List ParamId) :
    List (ParamId × Nat) → List (Option Ty) → List (Option Ty)
  | [], known => known
  | (p, i) :: rest, known =>
    match known[i]? with
    | some none =>
      s.reconcileFrom given params rest (known.set i (s.fromSiblings given params known i p))
    | _ => s.reconcileFrom given params rest known

def reconcile (s : Store) (given : Substitution) (params : List ParamId)
    (known : List (Option Ty)) : List (Option Ty) :=
  s.reconcileFrom given params params.zipIdx known

/-! ### The loop over siblings -/

theorem firstExact?_cons (c : Constraint) (cs : List Constraint) :
    firstExact? (c :: cs) = if c.bearing = .exactly then some c.ty else firstExact? cs := by
  by_cases h : c.bearing = .exactly <;> simp [firstExact?, h]

theorem lowerBounds_cons (c : Constraint) (cs : List Constraint) :
    lowerBounds (c :: cs) =
      if c.bearing = .atLeast then c.ty :: lowerBounds cs else lowerBounds cs := by
  by_cases h : c.bearing = .atLeast <;> simp [lowerBounds, h]

/-- The constraints on a parameter that bounds of siblings give. -/
def siblingConstraints (s : Store) (p : ParamId) (bs : List (Ty × Ty)) : List Constraint :=
  bs.filterMap fun (bound, t) => (s.constrain p .intoFormal bound t).constraint?

variable {s : Store} {p : ParamId}

theorem siblingConstraints_found {bound t : Ty} {c : Constraint} (bs : List (Ty × Ty))
    (h : s.constrain p .intoFormal bound t = .found c) :
    s.siblingConstraints p ((bound, t) :: bs) = c :: s.siblingConstraints p bs := by
  simp [siblingConstraints, h, MatchResult.constraint?]

theorem siblingConstraints_not_found {bound t : Ty} (bs : List (Ty × Ty))
    (h : (s.constrain p .intoFormal bound t).constraint? = none) :
    s.siblingConstraints p ((bound, t) :: bs) = s.siblingConstraints p bs := by
  simp [siblingConstraints, h]

/-- What a join has come to, joined with further types. One that has broken down stays as it is. -/
def joinOn (s : Store) : Option Ty → Bool → List Ty → Option Ty
  | answer, true, _ => answer
  | none, false, ts => s.lubAll ts
  | some v, false, ts => ts.foldlM (fun u v => s.lub u v) v

theorem joinOn_nil (s : Store) (answer : Option Ty) (failed : Bool) :
    s.joinOn answer failed [] = answer := by
  cases failed <;> cases answer <;> rfl

/-- The rest of the loop finds an equation if there is one, even when the join has broken down;
else it goes on with the join. -/
theorem gather_eq (s : Store) (p : ParamId) (answer : Option Ty) (failed : Bool)
    (bs : List (Ty × Ty)) :
    s.gather p answer failed bs = (firstExact? (s.siblingConstraints p bs)).or
      (s.joinOn answer failed (lowerBounds (s.siblingConstraints p bs))) := by
  induction bs generalizing answer failed with
  | nil => exact (joinOn_nil s answer failed).symm
  | cons b bs ih =>
    obtain ⟨bound, t⟩ := b
    rw [gather]
    cases h : s.constrain p .intoFormal bound t with
    | found c =>
      obtain ⟨u, b⟩ := c
      rw [siblingConstraints_found bs h, firstExact?_cons, lowerBounds_cons]
      cases b with
      | exactly => rfl
      | atMost => exact ih answer failed
      | atLeast =>
        cases failed with
        | true => exact ih answer true
        | false =>
          cases answer with
          | none => exact ih (some u) false
          | some v => cases hlub : s.lub v u <;> simp [hlub, ih, joinOn]
    | _ =>
      rw [siblingConstraints_not_found bs (by rw [h]; rfl)]
      exact ih answer failed

/-- The loop over the bounds of siblings finds the first equation, else the join of all lower
bounds. -/
theorem fromSiblings_eq (s : Store) (given : Substitution) (params : List ParamId)
    (known : List (Option Ty)) (index : Nat) (p : ParamId) :
    s.fromSiblings given params known index p =
      (firstExact? (s.siblingConstraints p (s.siblingBounds given params known index))).or
        (s.lubAll (lowerBounds
          (s.siblingConstraints p (s.siblingBounds given params known index)))) :=
  gather_eq s p none false _

theorem length_reconcileFrom (s : Store) (given : Substitution) (params : List ParamId)
    (todo : List (ParamId × Nat)) (known : List (Option Ty)) :
    (s.reconcileFrom given params todo known).length = known.length := by
  fun_induction reconcileFrom s given params todo known with
  | case1 => rfl
  | case2 known p i rest h ih => simpa using ih
  | case3 known p i rest h ih => exact ih

end GenericCalls.Store
