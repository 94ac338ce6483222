import GenericCalls.Lub
import GenericCalls.Proofs.Store.Shift

/-! # Least upper bounds of later captures

Of two types that accept one another the earlier in the order of types is chosen, and captures stand
in this order by number. A shift keeps the order of captures, so the least upper bound of shifted
types is the shifted least upper bound. -/

namespace GenericCalls.Store

open Ty

variable {s : Store} (hs : s.captureFree = true) (n : Nat)

/-! ### Choosing between types -/

@[simp] theorem chooseForm_shift (t u : Ty) :
    chooseForm (t.shift n) (u.shift n) = (chooseForm t u).shift n := by
  have hleast := least_shift n t u
  unfold chooseForm
  cases t with
  | cls c ts =>
    cases u with
    | cls d us =>
      cases ts with
      | nil =>
        cases us with
        | nil => exact hleast
        | cons u us =>
          simp only [shift, shiftAll] at hleast ⊢
          rw [hleast]
          split <;> rfl
      | cons t ts =>
        cases us with
        | nil =>
          simp only [shift, shiftAll] at hleast ⊢
          rw [hleast]
          split <;> rfl
        | cons u us => exact hleast
    | _ => simpa [shift] using hleast
  | _ => cases u <;> simpa [shift] using hleast

section
include hs

theorem concreteBound_shift (k : Nat) (t : Ty) :
    s.concreteBound k (t.shift n) = (s.concreteBound k t).shift n := by
  induction k generalizing t with
  | zero => rfl
  | succ k ih =>
    rw [concreteBound, concreteBound, isVariable_shift, upperBound_shift hs, ih]
    split <;> rfl

end

/-! ### Common classes -/

mutual
@[simp] theorem rootClasses_shift : (t : Ty) → rootClasses (t.shift n) = rootClasses t
  | .prim _ => rfl
  | .array _ => rfl
  | .cls _ _ => rfl
  | .param _ => rfl
  | .wild _ none => rfl
  | .wild _ (some _) => rfl
  | .captured _ _ none => rfl
  | .captured _ _ (some _) => rfl
  | .inter ts => rootClassesAll_shift ts
  | .null => rfl
  | .unknown => rfl
theorem rootClassesAll_shift :
    (ts : List Ty) → rootClassesAll (shiftAll n ts) = rootClassesAll ts
  | [] => rfl
  | t :: ts => by
    rw [shiftAll, rootClassesAll, rootClassesAll, rootClasses_shift t, rootClassesAll_shift ts]
end

@[simp] theorem commonClasses_shift (t u : Ty) :
    s.commonClasses (t.shift n) (u.shift n) = s.commonClasses t u := by
  unfold commonClasses
  rw [rootClasses_shift, rootClasses_shift]

mutual
theorem argsAt_shift (hs : s.captureFree = true) (c : ClassId) :
    (t : Ty) → argsAt s c (t.shift n) = (argsAt s c t).map (List.map (shift n))
  | .prim _ => rfl
  | .array _ => rfl
  | .cls d args => by
    have h := ancestorArgs_shift hs n ⟨d, args⟩ c
    rw [shift, shiftAll_eq_map]
    exact h
  | .param _ => rfl
  | .wild _ none => rfl
  | .wild _ (some _) => rfl
  | .captured _ _ none => rfl
  | .captured _ _ (some _) => rfl
  | .inter ts => argsAtAny_shift hs c ts
  | .null => rfl
  | .unknown => rfl
theorem argsAtAny_shift (hs : s.captureFree = true) (c : ClassId) : (ts : List Ty) →
    argsAtAny s c (shiftAll n ts) = (argsAtAny s c ts).map (List.map (shift n))
  | [] => rfl
  | t :: ts => by
    rw [shiftAll, argsAtAny, argsAtAny, argsAt_shift hs c t, argsAtAny_shift hs c ts]
    cases argsAt s c t <;> rfl
end

/-! ### Joining -/

@[simp] theorem lowerBound?_shift (t : Ty) :
    lowerBound? (t.shift n) = (lowerBound? t).map (shift n) := by
  unfold lowerBound?
  rw [openWildcard?_shift]
  cases t.openWildcard? <;> simp

@[simp] theorem meetOf_shift (ts : List Ty) :
    s.meetOf (ts.map (shift n)) = (s.meetOf ts).shift n := by
  rcases ts with _ | ⟨t, _ | ⟨u, us⟩⟩
  · rfl
  · rfl
  · simp [meetOf, shift]

/-- The computation of joins shifts with the types that are joined. -/
def JoinsLater (n : Nat) (join : Ty → Ty → Nat → Option (Option Ty)) : Prop :=
  ∀ t u depth, join (t.shift n) (u.shift n) depth = (join t u depth).map (Option.map (shift n))

section
variable {n} {join : Ty → Ty → Nat → Option (Option Ty)} (hjoin : JoinsLater n join)
include hs hjoin

theorem leastContaining_shift (x y : Ty) (depth : Nat) :
    s.leastContaining join (x.shift n) (y.shift n) depth =
      (s.leastContaining join x y depth).map (shift n) := by
  unfold leastContaining
  rw [beq_shift]
  split
  · rfl
  split
  · rfl
  rw [lowerBound?_shift, lowerBound?_shift]
  cases lowerBound? x with
  | some a =>
    cases lowerBound? y with
    | none => rfl
    | some b =>
      simp only [Option.map_some, assignable_shift hs]
      split
      · rfl
      · split <;> rfl
  | none =>
    cases lowerBound? y with
    | some b => rfl
    | none =>
      simp only [Option.map_none, upperBound_shift hs]
      rw [hjoin, Option.map_map, Option.map_map]
      refine congrArg (Option.map · _) (funext fun bound => ?_)
      cases bound with
      | none => rfl
      | some bound =>
        simp only [Function.comp_apply, Option.map_some, isObject_shift]
        split <;> rfl

theorem joinAt_shift (t u : Ty) (depth : Nat) (c : ClassId) :
    s.joinAt join (t.shift n) (u.shift n) depth c =
      (s.joinAt join t u depth c).map (shift n) := by
  unfold joinAt
  rw [argsAt_shift n hs, argsAt_shift n hs]
  cases argsAt s c t with
  | none => rfl
  | some left =>
    cases argsAt s c u with
    | none => rfl
    | some right =>
      simp only [Option.map_some, List.isEmpty_map, List.length_map]
      split
      · rfl
      · have hargs := mapM_eq_map_map (h := shift n)
          (fun p : Ty × Ty => leastContaining_shift hs hjoin p.1 p.2 depth) (left.zip right)
        rw [List.zip_map, List.mapM_map]
        exact (congrArg (Option.map (Ty.cls c)) hargs).trans (by simp [Function.comp_def, shift])

theorem joinClasses_shift (t u : Ty) (depth : Nat) :
    s.joinClasses join (t.shift n) (u.shift n) depth =
      (s.joinClasses join t u depth).map (shift n) := by
  unfold joinClasses
  rw [commonClasses_shift, mapM_eq_map_map (fun c => joinAt_shift hs hjoin t u depth c),
    Option.map_map, Option.map_map]
  exact congrArg (Option.map · _) (funext fun ts => meetOf_shift n ts)

theorem joinDistinct_shift (t u : Ty) (depth : Nat) :
    s.joinDistinct join (t.shift n) (u.shift n) depth =
      (s.joinDistinct join t u depth).map (Option.map (shift n)) := by
  unfold joinDistinct
  rw [assignable_shift hs, assignable_shift hs]
  cases s.assignable t u with
  | true =>
    cases s.assignable u t with
    | true => simp only [chooseForm_shift, Option.map_some]
    | false => rfl
  | false =>
    cases s.assignable u t with
    | true => rfl
    | false =>
      simp only [isVariable_shift, concreteBound_shift hs]
      split
      · exact hjoin _ _ depth
      · rename_i hvariable
        rw [Bool.or_eq_true, not_or] at hvariable
        -- Two types that are neither arrays nor variables are joined by their classes.
        have hclasses : (s.joinClasses join (t.shift n) (u.shift n) depth).map some =
            ((s.joinClasses join t u depth).map some).map (Option.map (shift n)) := by
          rw [joinClasses_shift hs hjoin, Option.map_map, Option.map_map]
          rfl
        cases t with
        | array t =>
          cases u with
          | array u =>
            simp only [shift, isPrim_shift, hjoin t u]
            split
            · rfl
            · rw [Option.map_map, Option.map_map]
              refine congrArg (Option.map · _) (funext fun r => ?_)
              cases r <;> rfl
          | wild _ _ | captured _ _ _ | param _ => cases hvariable.2 rfl
          | _ => rfl
        | wild _ _ | captured _ _ _ | param _ => cases hvariable.1 rfl
        | _ =>
          cases u with
          | array u => rfl
          | wild _ _ | captured _ _ _ | param _ => cases hvariable.2 rfl
          | _ => exact hclasses

theorem lubStep_shift : JoinsLater n (s.lubStep join) := by
  intro t u depth
  unfold lubStep
  rw [isUnknown_shift, isUnknown_shift, beq_shift, box?_shift, box?_shift]
  split
  · rfl
  split
  · rfl
  cases s.box? t with
  | none => rfl
  | some t =>
    cases s.box? u with
    | none => rfl
    | some u =>
      simp only [Option.map_some, isNull_shift, joinDistinct_shift hs hjoin]
      split
      · rfl
      · split <;> rfl

end

section
include hs

theorem lubWithin_shift (k : Nat) : JoinsLater n (s.lubWithin k) := by
  induction k with
  | zero => exact fun _ _ _ => rfl
  | succ k ih => exact lubStep_shift hs ih

theorem lub_shift (t u : Ty) : s.lub (t.shift n) (u.shift n) = (s.lub t u).map (shift n) := by
  have hbudget : s.lubBudget (t.shift n) (u.shift n) = s.lubBudget t u := by
    unfold lubBudget lubReach
    rw [size_shift, size_shift]
  unfold lub
  rw [hbudget, lubWithin_shift hs]
  cases s.lubWithin (s.lubBudget t u) t u 0 <;> rfl

end

end GenericCalls.Store
