import GenericCalls.Match.Basic
import GenericCalls.Proofs.Store.Shift

/-! # Matching of later captures

A captured wildcard is matched as the wildcard it captures, so a match cannot tell when it was
captured: what shifted types say of a parameter is what the types say of it, shifted. -/

namespace GenericCalls

def Constraint.shift (n : Nat) (c : Constraint) : Constraint := ⟨c.ty.shift n, c.bearing⟩

def MatchResult.shift (n : Nat) : MatchResult → MatchResult
  | .noInfo => .noInfo
  | .failed => .failed
  | .raw => .raw
  | .found c => .found (c.shift n)

namespace MatchResult

variable (n : Nat) (r : MatchResult)

@[simp] theorem constraint?_shift :
    (r.shift n).constraint? = r.constraint?.map (Constraint.shift n) := by
  cases r <;> rfl

@[simp] theorem isNoInfo_shift : (r.shift n).isNoInfo = r.isNoInfo := by
  cases r <;> rfl

@[simp] theorem isWild_shift : (r.shift n).isWild = r.isWild := by
  cases r with
  | found c => exact Ty.isWild_shift n c.ty
  | _ => rfl

end MatchResult

namespace Store

open Ty

variable {s : Store} (hs : s.captureFree = true) (n : Nat)

/-! ### Bringing both sides to one class -/

section
include hs

theorem liftWithin_shift (c : ClassId) (k : Nat) (t : Ty) :
    s.liftWithin c k (t.shift n) = (s.liftWithin c k t).map (ClassTy.shift n) := by
  induction k generalizing t with
  | zero => rfl
  | succ k ih =>
    cases t with
    | cls d args =>
      have hargs := ancestorArgs_shift hs n ⟨d, args⟩ c
      rw [ClassTy.shift] at hargs
      rw [shift, shiftAll_eq_map, liftWithin, liftWithin, hargs, Option.map_map, Option.map_map]
      rfl
    | param p =>
      have hbounds := findSome?_map_eq (fun b => ih b) (s.bounds p)
      rw [map_shift_bounds hs] at hbounds
      rw [shift, liftWithin]
      split
      · exact ih s.object
      · exact hbounds
    | inter ts =>
      rw [shift, shiftAll_eq_map, liftWithin, liftWithin]
      exact findSome?_map_eq (fun t => ih t) ts
    | wild l b => cases b <;> rfl
    | captured i l b => cases b <;> rfl
    | _ => rfl

theorem promote_shift (c : ClassId) (index : Nat) (t : Ty) :
    s.promote c index (t.shift n) = (s.promote c index t).shift n := by
  cases t with
  | wild k b =>
    cases b with
    | some b => rfl
    | none =>
      rw [shift, promote]
      split
      · rename_i b hb
        obtain ⟨p, -, hp⟩ := Option.bind_eq_some_iff.1 hb
        have hbound := map_shift_primaryBound? hs n p
        rw [hp, Option.map_some, Option.some_inj] at hbound
        split
        · rfl
        · rw [extending, shift, hbound]
      · rfl
  | captured i k b => cases b <;> rfl
  | _ => rfl

theorem promoteAll_shift (c : ClassTy) :
    s.promoteAll (c.shift n) = (s.promoteAll c).map (shift n) := by
  unfold promoteAll
  refine List.ext_getElem? fun i => ?_
  rw [ClassTy.args_shift, ClassTy.id_shift, List.getElem?_map, List.getElem?_mapIdx,
    List.getElem?_mapIdx, List.getElem?_map, Option.map_map, Option.map_map]
  exact congrArg (Option.map · _) (funext fun t => promote_shift hs n c.id i t)

end

theorem pairArgs_shift (ps ts : List Ty) : pairArgs (ps.map (shift n)) (ts.map (shift n)) =
    (pairArgs ps ts).map (Prod.map (shift n) (shift n)) := by
  unfold pairArgs
  rw [List.length_map, List.length_map, List.zip_map]
  split <;> rfl

/-! ### Matching type arguments -/

/-- What is said of shifted types is what is said of the types, shifted. -/
def MatchesLater (n : Nat) (go : Ty → Ty → Option MatchResult) : Prop :=
  ∀ p t, go (p.shift n) (t.shift n) = (go p t).map (MatchResult.shift n)

section
variable {n} {go : Ty → Ty → Option MatchResult} (hgo : MatchesLater n go)
include hgo

theorem matchArgs_shift (captured : Option Constraint) (pairs : List (Ty × Ty)) :
    matchArgs go (captured.map (Constraint.shift n)) (pairs.map (Prod.map (shift n) (shift n))) =
      (matchArgs go captured pairs).map (MatchResult.shift n) := by
  induction pairs generalizing captured with
  | nil => cases captured <;> rfl
  | cons pair rest ih =>
    obtain ⟨p, t⟩ := pair
    rw [List.map_cons, Prod.map_apply, matchArgs, matchArgs, hgo]
    cases go p t with
    | none => rfl
    | some r =>
      cases r with
      | noInfo => exact ih captured
      | found c =>
        have hwild : (c.shift n).ty.isWild = c.ty.isWild := isWild_shift n c.ty
        simp only [Option.map_some, MatchResult.shift, hwild]
        split
        · cases captured with
          | none => exact ih (some c)
          | some _ => rfl
        · rfl
      | _ => rfl

omit hgo in
theorem joinBoundResults_shift (rs : List MatchResult) :
    joinBoundResults (rs.map (MatchResult.shift n)) = (joinBoundResults rs).shift n := by
  have hwild : MatchResult.isWild ∘ MatchResult.shift n = MatchResult.isWild :=
    funext fun r => r.isWild_shift n
  have hinfo : (fun r : MatchResult => !r.isNoInfo) ∘ MatchResult.shift n = fun r => !r.isNoInfo :=
    funext fun r => congrArg not (r.isNoInfo_shift n)
  unfold joinBoundResults
  rw [List.countP_map, hwild, List.find?_map, hinfo]
  split
  · rfl
  · cases rs.find? fun r => !r.isNoInfo <;> rfl

theorem matchBoundArgs_shift (pairs : List (Ty × Ty)) :
    matchBoundArgs go (pairs.map (Prod.map (shift n) (shift n))) =
      (matchBoundArgs go pairs).map (MatchResult.shift n) := by
  have hresults := mapM_eq_map_map (h := MatchResult.shift n)
    (fun p : Ty × Ty => hgo p.1 p.2) pairs
  unfold matchBoundArgs
  rw [List.mapM_map, Option.map_map]
  refine (congrArg (Option.map joinBoundResults) hresults).trans ?_
  rw [Option.map_map]
  exact congrArg (Option.map · _) (funext joinBoundResults_shift)

end

@[simp] theorem holdsTarget_shift (target : ParamId) (t : Ty) :
    holdsTarget target (t.shift n) = holdsTarget target t := by
  cases t with
  | wild k b =>
    cases b with
    | none => rfl
    | some b => exact isParam_shift n target b
  | captured i k b => cases b <;> rfl
  | _ => rfl

/-! ### Matching -/

section
include hs

theorem matchClass_shift {go : Ty → Ty → Option MatchResult} (hgo : MatchesLater n go)
    (target : ParamId) (pattern arg : ClassTy) :
    s.matchClass target go (pattern.shift n) (arg.shift n) =
      (s.matchClass target go pattern arg).map (MatchResult.shift n) := by
  have hholds : holdsTarget target ∘ shift n = holdsTarget target :=
    funext fun t => holdsTarget_shift n target t
  unfold matchClass
  rw [ClassTy.args_shift, ClassTy.args_shift, List.isEmpty_map, List.isEmpty_map, List.any_map,
    hholds, promoteAll_shift hs, pairArgs_shift]
  split
  · split <;> rfl
  · exact matchArgs_shift hgo none _

theorem matchBound_shift {go : Ty → Ty → Bearing → Option MatchResult}
    {deeper : Ty → Ty → Option MatchResult} (hgo : ∀ r, MatchesLater n (go · · r))
    (hdeeper : MatchesLater n deeper) (target : ParamId) (kind : WildcardKind) (bound arg : Ty) :
    s.matchBound target go deeper kind (bound.shift n) (arg.shift n) =
      (s.matchBound target go deeper kind bound arg).map (MatchResult.shift n) := by
  have hself (r : Bearing) := hgo r bound arg
  cases arg with
  | wild l b =>
    rw [shift_wild]
    unfold matchBound
    dsimp only
    split
    · cases b with
      | none => rfl
      | some b => exact hgo _ bound b
    · rfl
  | array t =>
    simp only [matchBound, shift, isParam_shift]
    split
    · exact hself _
    · cases bound with
      | array b => exact hgo _ b t
      | wild _ b | captured _ _ b => cases b <;> rfl
      | _ => rfl
  | cls d ds =>
    simp only [matchBound, shift, shiftAll_eq_map, isParam_shift]
    split
    · rw [← shiftAll_eq_map]
      exact hself _
    · cases bound with
      | cls c cs =>
        -- Under an upper bound the argument is seen as the class of the bound, under a lower one
        -- the bound as the class of the argument.
        have hup := ancestorArgs_shift hs n ⟨d, ds⟩ c
        have hdown := ancestorArgs_shift hs n ⟨c, cs⟩ d
        simp only [ClassTy.shift] at hup hdown
        cases kind with
        | upper =>
          simp only [shift, shiftAll_eq_map, hup]
          cases s.ancestorArgs ⟨d, ds⟩ c with
          | none => rfl
          | some lifted =>
            simp only [Option.map_some, pairArgs_shift]
            exact matchBoundArgs_shift hdeeper _
        | lower =>
          simp only [shift, shiftAll_eq_map, hdown]
          cases s.ancestorArgs ⟨c, cs⟩ d with
          | none => rfl
          | some lifted =>
            simp only [Option.map_some, pairArgs_shift]
            exact matchBoundArgs_shift hdeeper _
      | wild _ b | captured _ _ b => cases b <;> rfl
      | _ => rfl
  | captured i l b =>
    rw [shift_captured] at hself ⊢
    simp only [matchBound, isParam_shift]
    split
    · exact hself _
    · cases bound with
      | wild _ b | captured _ _ b => cases b <;> rfl
      | _ => rfl
  | _ =>
    simp only [matchBound, shift, isParam_shift]
    split
    · exact hself _
    · cases bound with
      | wild _ b | captured _ _ b => cases b <;> rfl
      | _ => rfl

theorem matchStep_shift {go : Ty → Ty → Bearing → Nat → Option MatchResult}
    (hgo : ∀ r d, MatchesLater n (go · · r d)) (target : ParamId) (bearing : Bearing)
    (depth : Nat) : MatchesLater n (s.matchStep target go · · bearing depth) := by
  intro pattern arg
  simp only [matchStep, reopen_shift, isParam_shift]
  generalize arg.reopen = arg
  split
  · simp only [isWild_shift, isNull_shift, isUnknown_shift]
    split
    · rfl
    · split <;> rfl
  · cases pattern with
    | array p =>
      cases arg with
      | array t => exact hgo bearing depth p t
      | wild _ b | captured _ _ b => cases b <;> rfl
      | _ => rfl
    | wild k b =>
      cases b with
      | none => rfl
      | some b =>
        exact matchBound_shift hs n (fun r => hgo r depth) (hgo .exactly (depth + 1)) target k b arg
    | cls c cs =>
      cases arg with
      | cls d ds =>
        have h := matchClass_shift hs n (hgo .exactly (depth + 1)) target ⟨c, cs⟩ ⟨d, ds⟩
        simp only [ClassTy.shift] at h
        simp only [shift, shiftAll_eq_map]
        split
        · exact h
        · rfl
      | wild _ b | captured _ _ b => cases b <;> rfl
      | _ => rfl
    | captured _ _ b => cases b <;> rfl
    | _ => rfl

theorem matchWithin_shift (target : ParamId) (k : Nat) (bearing : Bearing) (depth : Nat) :
    MatchesLater n (s.matchWithin target k · · bearing depth) := by
  induction k generalizing bearing depth with
  | zero => exact fun _ _ => rfl
  | succ k ih => exact matchStep_shift hs n (fun r d => ih r d) target bearing depth

theorem matchTypes_shift (target : ParamId) (pattern arg : Ty) (bearing : Bearing) (depth : Nat) :
    s.matchTypes target (pattern.shift n) (arg.shift n) bearing depth =
      (s.matchTypes target pattern arg bearing depth).shift n := by
  have hmatch := matchWithin_shift hs n target (matchBudget pattern arg) bearing depth pattern arg
  unfold matchTypes
  rw [matchBudget, size_shift, size_shift, ← matchBudget]
  exact (congrArg (Option.getD · _) hmatch).trans (Option.getD_map (MatchResult.shift n) .noInfo _)

theorem constrainClass_shift (target : ParamId) (flow : Flow) (pattern : ClassTy) (arg : Ty) :
    s.constrainClass target flow (pattern.shift n) (arg.shift n) =
      (s.constrainClass target flow pattern arg).shift n := by
  cases flow with
  | intoFormal =>
    simp only [constrainClass, ClassTy.id_shift, liftWithin_shift hs]
    cases s.liftWithin pattern.id Limits.liftSteps arg with
    | none => rfl
    | some lifted =>
      simp only [Option.map_some, ClassTy.toTy_shift]
      exact matchTypes_shift hs n target _ _ .atLeast 0
  | intoContext =>
    cases arg with
    | cls d args =>
      simp only [constrainClass, shift, ancestorArgs_shift hs]
      cases s.ancestorArgs pattern d with
      | none => rfl
      | some lifted =>
        have h := matchTypes_shift hs n target (.cls d lifted) (.cls d args) .atLeast 0
        simp only [shift, shiftAll_eq_map] at h ⊢
        exact h
    | wild _ b | captured _ _ b => cases b <;> rfl
    | _ => rfl

theorem constrain_shift (target : ParamId) (flow : Flow) (declared arg : Ty) :
    s.constrain target flow (declared.shift n) (arg.shift n) =
      (s.constrain target flow declared arg).shift n := by
  induction declared using Ty.induct generalizing arg with
  | array p ih =>
    cases arg with
    | array t => exact ih t
    | wild _ b | captured _ _ b => cases b <;> rfl
    | _ => rfl
  | param p =>
    simp only [shift, constrain, box?_shift]
    cases s.box? arg with
    | none => rfl
    | some t =>
      simp only [Option.map_some, isNull_shift, isUnknown_shift]
      split <;> rfl
  | cls c cs =>
    have h (t : Ty) := constrainClass_shift hs n target flow ⟨c, cs⟩ t
    simp only [ClassTy.shift] at h
    simp only [shift, shiftAll_eq_map, constrain, box?_shift]
    cases s.box? arg with
    | none => rfl
    | some t => exact h t
  | _ => rfl

end

end Store

end GenericCalls
