import GenericCalls.Assignable

/-! # Least upper bounds

The least type to which two types are assignable. Of two types assignable to each other one is
chosen by a fixed order, and the components of an intersection are sorted, classes before interfaces
and then by number.

A class may stand in the type arguments of its own supertypes, so type arguments are joined only to
a limited depth and become `?` beyond it. Bounds of type variables may run in circles through
arrays; the computation is given a budget of steps that nothing but such circles exhausts, and
answers nothing when it runs out. -/

namespace GenericCalls.Store

/-! ### Choosing between types -/

/-- One of two types that are assignable to each other: the parameterised form of a class rather
than its raw form, else the earlier in the order of types. -/
def chooseForm (s t : Ty) : Ty :=
  match s, t with
  | .cls c [], .cls d (_ :: _) => if c = d then t else s.least t
  | .cls c (_ :: _), .cls d [] => if c = d then s else s.least t
  | _, _ => s.least t

/-- Follows upper bounds until the type is no variable; the root class after too many of them. -/
def concreteBound (s : Store) : Nat → Ty → Ty
  | 0, _ => s.object
  | n + 1, t => if t.isVariable then s.concreteBound n (s.upperBound t) else t

/-! ### Common classes -/

mutual
/-- The classes from which the supertypes of a type are reached. -/
def rootClasses : Ty → List ClassId
  | .cls c _ => [c]
  | .inter ts => rootClassesAll ts
  | _ => []
def rootClassesAll : List Ty → List ClassId
  | [] => []
  | t :: ts => rootClasses t ++ rootClassesAll ts
end

mutual
/-- The type arguments of a class as seen from a type, or from the first component of an
intersection that reaches it. -/
def argsAt (s : Store) (c : ClassId) : Ty → Option (List Ty)
  | .cls d args => s.ancestorArgs ⟨d, args⟩ c
  | .inter ts => argsAtAny s c ts
  | _ => none
/-- The type arguments of a class as seen from the first of the types that reaches it. -/
def argsAtAny (s : Store) (c : ClassId) : List Ty → Option (List Ty)
  | [] => none
  | t :: ts =>
    match argsAt s c t with
    | some args => some args
    | none => argsAtAny s c ts
end

/-- Whether one class comes before another in an intersection: classes before interfaces, then by
number. -/
def classBefore (s : Store) (c d : ClassId) : Bool :=
  let isInterface (e : ClassId) : Bool := (s.class? e).any ClassDecl.isInterface
  match isInterface c, isInterface d with
  | false, true => true
  | true, false => false
  | _, _ => decide (c ≤ d)

def insertClass (s : Store) (c : ClassId) : List ClassId → List ClassId
  | [] => [c]
  | d :: ds => if s.classBefore c d then c :: d :: ds else d :: s.insertClass c ds

def sortClasses (s : Store) (cs : List ClassId) : List ClassId := cs.foldr s.insertClass []

/-- The classes among `cs` that no other of them inherits from. -/
def minimalClasses (s : Store) (cs : List ClassId) : List ClassId :=
  cs.filter fun c => !cs.any fun d => d != c && s.isSubclass d c

/-- The nearest classes that two types have in common, sorted. -/
def commonClasses (s : Store) (a b : Ty) : List ClassId :=
  let right := s.reachable (rootClasses b)
  s.sortClasses (s.minimalClasses ((s.reachable (rootClasses a)).filter (right.contains ·)))

/-! ### Joining -/

/-- The lower bound that a wildcard, captured or not, states. -/
def lowerBound? (t : Ty) : Option Ty := t.openWildcard?.bind Wildcard.superBound?

/-- The least type argument that holds both `x` and `y`, where `join` gives least upper bounds at a
depth. -/
def leastContaining (s : Store) (join : Ty → Ty → Nat → Option (Option Ty)) (x y : Ty)
    (depth : Nat) : Option Ty :=
  if x == y then some x
  else if Limits.lubDepth ≤ depth then some Ty.anything
  else
    match lowerBound? x, lowerBound? y with
    | some a, some b =>
      if s.assignable a b then some (Ty.above b)
      else if s.assignable b a then some (Ty.above a)
      else some Ty.anything
    | some _, none => some Ty.anything
    | none, some _ => some Ty.anything
    | none, none =>
      (join (s.upperBound x) (s.upperBound y) (depth + 1)).map fun
        | some bound => if s.isObject bound then Ty.anything else Ty.extending bound
        | none => Ty.anything

/-- A class with the least type arguments that hold those with which it is seen from `a` and from
`b`; raw where one of the views is. -/
def joinAt (s : Store) (join : Ty → Ty → Nat → Option (Option Ty)) (a b : Ty) (depth : Nat)
    (c : ClassId) : Option Ty :=
  match argsAt s c a, argsAt s c b with
  | some left, some right =>
    if left.isEmpty || right.isEmpty || left.length != right.length then some (.raw c)
    else ((left.zip right).mapM fun p => s.leastContaining join p.1 p.2 depth).map (.cls c)
  | _, _ => some (.raw c)

/-- Components that are joined into one type: the root class, the component, or an intersection. -/
def meetOf (s : Store) : List Ty → Ty
  | [] => s.object
  | [t] => t
  | ts => .inter ts

def joinClasses (s : Store) (join : Ty → Ty → Nat → Option (Option Ty)) (a b : Ty) (depth : Nat) :
    Option Ty :=
  ((s.commonClasses a b).mapM (s.joinAt join a b depth)).map s.meetOf

/-- The least upper bound of two types that are neither unknown, the same, primitive nor null, where
`join` gives those of their parts. -/
def joinDistinct (s : Store) (join : Ty → Ty → Nat → Option (Option Ty)) (a b : Ty) (depth : Nat) :
    Option (Option Ty) :=
  match s.assignable a b, s.assignable b a with
  | true, true => some (some (chooseForm a b))
  | true, false => some (some a)
  | false, true => some (some b)
  | false, false =>
    if a.isVariable || b.isVariable then
      join (s.concreteBound Limits.boundChain a) (s.concreteBound Limits.boundChain b) depth
    else
      match a, b with
      | .array t, .array u =>
        if t.isPrim || u.isPrim then some (some s.object)
        else (join t u depth).map fun r => some ((r.map .array).getD s.object)
      | .array _, _ => some (some s.object)
      | _, .array _ => some (some s.object)
      | a, b => (s.joinClasses join a b depth).map some

/-- One step of the computation of a least upper bound, where `join` computes those of the parts. -/
def lubStep (s : Store) (join : Ty → Ty → Nat → Option (Option Ty)) (a b : Ty) (depth : Nat) :
    Option (Option Ty) :=
  if a.isUnknown || b.isUnknown then some none
  else if a == b then some (some a)
  else
    match s.box? a, s.box? b with
    | some a, some b =>
      if a.isNull then some (some b)
      else if b.isNull then some (some a)
      else s.joinDistinct join a b depth
    | _, _ => some none

/-- The least upper bound of two types at a depth of type arguments, computed in at most so many
nested steps. The outer option is empty when the steps do not suffice, the inner one when there is
no upper bound. -/
def lubWithin (s : Store) : Nat → Ty → Ty → Nat → Option (Option Ty)
  | 0, _, _, _ => none
  | n + 1, a, b, depth => s.lubStep (s.lubWithin n) a b depth

/-- On one depth of type arguments no more types than this are met on either side: those on the way
into a type, and those that are declared. Type arguments are nested deeper than the types seen, but
only by declarations, once for each class that is visited in the search for an ancestor. -/
def lubReach (s : Store) (a b : Ty) : Nat :=
  a.size + b.size + (Limits.lubDepth + 1) * Limits.hierarchy * (1 + s.weight)

/-- The nested steps that joining two types may take. On one depth of type arguments no pair of
types is joined twice, unless the computation runs in a circle. -/
def lubBudget (s : Store) (a b : Ty) : Nat :=
  (Limits.lubDepth + 1) * (s.lubReach a b * s.lubReach a b) + 1

/-- The least upper bound of two types; none if one is unknown, or primitive without a wrapper. -/
def lub (s : Store) (a b : Ty) : Option Ty := (s.lubWithin (s.lubBudget a b) a b 0).getD none

end GenericCalls.Store
