import GenericCalls.Proofs.Assignable.Solid
import GenericCalls.Proofs.Traversal
import GenericCalls.Proofs.Ty.Shift

/-! # Stores without captures

Captures are drawn by sessions and do not occur in declarations. In a store without them the
algorithms on types cannot tell when captures were drawn: a shift of all types that go in is a shift
of all types that come out, and no check of assignability changes. -/

namespace GenericCalls

/-! ### Stores -/

def MethodDecl.captureFree (d : MethodDecl) : Bool :=
  d.formals.all (fun f => f.ty.captureFree) && d.returns.captureFree

def Decl.captureFree : Decl → Bool
  | .cls d => d.supertypes.all fun t => Ty.captureFreeAll t.args
  | .param d => Ty.captureFreeAll d.bounds
  | .method d => d.captureFree

namespace Store

open Ty

def captureFree (s : Store) : Bool := s.decls.all Decl.captureFree

variable {s : Store} (hs : s.captureFree = true) (n : Nat)

/-! ### Declarations -/

section
include hs

theorem captureFree_decl {i : Nat} {d : Decl} (h : s.decl? i = some d) : d.captureFree = true := by
  cases i with
  | zero => cases h
  | succ i =>
    obtain ⟨hi, rfl⟩ := Array.getElem?_eq_some_iff.1 h
    exact Array.all_eq_true.1 hs i hi

theorem captureFree_supertypes {c : ClassId} {d : ClassDecl} (h : s.class? c = some d) :
    ∀ t ∈ d.supertypes, captureFreeAll t.args = true :=
  List.all_eq_true.1 (captureFree_decl hs (class?_eq_some_iff.1 h))

theorem captureFree_bounds (p : ParamId) : captureFreeAll (s.bounds p) = true := by
  unfold bounds param?
  split
  · rename_i hd
    exact captureFree_decl hs hd
  · rfl

theorem captureFree_method {m : MethodId} {d : MethodDecl} (h : s.method? m = some d) :
    d.captureFree = true :=
  captureFree_decl hs (method?_eq_some_iff.1 h)

theorem map_shift_bounds (p : ParamId) : (s.bounds p).map (shift n) = s.bounds p := by
  rw [← shiftAll_eq_map, shiftAll_of_captureFree n _ (captureFree_bounds hs p)]

theorem map_shift_primaryBound? (p : ParamId) :
    (s.primaryBound? p).map (shift n) = s.primaryBound? p := by
  rw [primaryBound?, ← List.head?_map, map_shift_bounds hs]

end

@[simp] theorem isObject_shift (t : Ty) : s.isObject (t.shift n) = s.isObject t := by
  cases t <;> simp [isObject, shift]

/-! ### Ancestors -/

def Sighting.shift (n : Nat) : Sighting → Sighting
  | .found args => .found (args.map (Ty.shift n))
  | .full => .full
  | .missed visited fresh => .missed visited (fresh.map (ClassTy.shift n))

theorem sight_shift (ancestor : ClassId) (ts fresh : List ClassTy) (visited : List ClassId) :
    sight ancestor (ts.map (ClassTy.shift n)) visited (fresh.map (ClassTy.shift n)) =
      (sight ancestor ts visited fresh).shift n := by
  induction ts generalizing visited fresh with
  | nil => simp [sight, Sighting.shift]
  | cons t ts ih =>
    simp only [List.map_cons, sight, ClassTy.id_shift, ClassTy.args_shift, ih]
    rw [← List.map_cons, ih]
    split
    · rfl
    · split
      · rfl
      · split <;> rfl

section
include hs

theorem directSupertypes_shift (c : ClassTy) :
    s.directSupertypes (c.shift n) = (s.directSupertypes c).map (ClassTy.shift n) := by
  unfold directSupertypes
  rw [ClassTy.id_shift]
  cases hd : s.class? c.id with
  | none => rfl
  | some d =>
    dsimp only
    rw [ClassTy.args_shift, List.isEmpty_map, List.length_map, Substitution.ofArgs_shift]
    split
    · simp
    · rw [List.map_map]
      refine List.map_congr_left fun t ht => ?_
      -- The declared supertype has no captures of its own; they come in with the arguments.
      rw [Substitution.substituteClass_shift_of_captureFree _ _
        (captureFree_supertypes hs hd t ht)]
      show Option.getD (Option.map _ ((Substitution.ofArgs d.params c.args).substituteClass t)) _ = _
      rw [← ClassTy.shift_raw n t.id, Option.getD_map]
      rfl

theorem searchAncestor_shift (ancestor : ClassId) (k : Nat) (queue : List ClassTy)
    (visited : List ClassId) :
    s.searchAncestor ancestor k (queue.map (ClassTy.shift n)) visited =
      (s.searchAncestor ancestor k queue visited).map (List.map (Ty.shift n)) := by
  induction k generalizing queue visited with
  | zero => rfl
  | succ k ih =>
    cases queue with
    | nil => rfl
    | cons c queue =>
      have hsight := sight_shift n ancestor (s.directSupertypes c) [] visited
      rw [List.map_nil] at hsight
      rw [List.map_cons, searchAncestor, searchAncestor, directSupertypes_shift hs, hsight]
      cases sight ancestor (s.directSupertypes c) visited [] with
      | found args => rfl
      | full => rfl
      | missed visited fresh =>
        simp only [Sighting.shift]
        rw [← List.map_append, ih]

theorem ancestorArgs_shift (c : ClassTy) (ancestor : ClassId) :
    s.ancestorArgs (c.shift n) ancestor =
      (s.ancestorArgs c ancestor).map (List.map (Ty.shift n)) := by
  have hsearch := searchAncestor_shift hs n ancestor Limits.hierarchy [c] [c.id]
  unfold ancestorArgs
  rw [ClassTy.id_shift, ClassTy.args_shift]
  split
  · rfl
  · split
    · rfl
    · exact hsearch

end

/-! ### Bounds -/

@[simp] theorem box?_shift (t : Ty) : s.box? (t.shift n) = (s.box? t).map (shift n) := by
  cases t with
  | prim p =>
    simp only [shift, box?, boxed?, Option.map_map]
    rfl
  | _ => simp [shift, box?]

@[simp] theorem unboxed?_shift (t : Ty) : s.unboxed? (t.shift n) = s.unboxed? t := by
  cases t <;> simp [unboxed?, shift]

@[simp] theorem wildcardUpper_shift (w : Wildcard) :
    s.wildcardUpper (w.shift n) = (s.wildcardUpper w).shift n := by
  unfold wildcardUpper
  rw [Wildcard.extendsBound?_shift]
  cases w.extendsBound? <;> rfl

section
include hs

theorem upperBound_shift (t : Ty) : s.upperBound (t.shift n) = (s.upperBound t).shift n := by
  cases t with
  | wild k b => rw [shift_wild]; exact wildcardUpper_shift n ⟨k, b⟩
  | captured i k b => rw [shift_captured]; exact wildcardUpper_shift n ⟨k, b⟩
  | param p =>
    refine (shift_of_captureFree n _ ?_).symm
    have hbounds := captureFree_bounds hs p
    rw [shift, upperBound]
    split
    · rfl
    · rename_i hb
      rw [hb, captureFreeAll_iff] at hbounds
      exact hbounds _ List.mem_cons_self
    · exact hbounds
  | _ => rfl

theorem boundedBy?_shift (k : Nat) (p : ParamId) :
    (s.boundedBy? k p).map (shift n) = s.boundedBy? k p := by
  induction k generalizing p with
  | zero => rfl
  | succ k ih =>
    have hbound := map_shift_primaryBound? hs n p
    unfold boundedBy?
    split
    · exact ih _
    · rename_i hp
      rw [hp] at hbound
      exact hbound
    · rename_i hp
      rw [hp] at hbound
      exact hbound
    · rfl

theorem erasureWithin_shift (k : Nat) (t : Ty) :
    s.erasureWithin k (t.shift n) = (s.erasureWithin k t).map (shift n) := by
  induction k generalizing t with
  | zero => rfl
  | succ k ih =>
    cases t with
    | array t =>
      rw [shift, erasureWithin, erasureWithin, ih, Option.map_map, Option.map_map]
      rfl
    | param p =>
      rw [shift, erasureWithin]
      have hbound := boundedBy?_shift hs n Limits.boundChain p
      cases hb : s.boundedBy? Limits.boundChain p with
      | none => rfl
      | some b =>
        rw [hb, Option.map_some, Option.some_inj] at hbound
        dsimp only
        rw [← ih, hbound]
    | wild l b =>
      rw [shift_wild, erasureWithin, erasureWithin, ← ih, ← wildcardUpper_shift]
      rfl
    | captured i l b =>
      rw [shift_captured, erasureWithin, erasureWithin, ← ih, ← wildcardUpper_shift]
      rfl
    | inter ts =>
      cases ts with
      | nil => rfl
      | cons t ts => exact ih t
    | _ => rfl

theorem erasure_shift (t : Ty) : s.erasure (t.shift n) = (s.erasure t).shift n := by
  unfold erasure erasureBudget
  rw [size_shift, erasureWithin_shift hs]
  cases s.erasureWithin (Limits.erasureSteps + t.size + s.weight + 1) t <;> rfl

end

/-! ### Assignability -/

/-- A check that does not depend on when captures were drawn. -/
def Timeless (n : Nat) (check : Ty → Ty → Bool) : Prop :=
  ∀ t u, check (t.shift n) (u.shift n) = check t u

section
variable {n} {check : Ty → Ty → Bool} (hcheck : Timeless n check)
include hcheck

theorem containsArg_shift (want arg : Ty) :
    s.containsArg check (want.shift n) (arg.shift n) = s.containsArg check want arg := by
  cases hwild : want.isWild with
  | false =>
    rw [containsArg_of_not_wild hwild, ← beq_shift n want arg, containsArg_of_not_wild]
    rw [isWild_shift, hwild]
  | true =>
    cases want with
    | wild k b =>
      cases b with
      | none => rfl
      | some b =>
        rw [shift]
        unfold containsArg
        rw [openWildcard?_shift]
        cases k with
        | upper =>
          cases arg.openWildcard? with
          | none => exact hcheck b arg
          | some w =>
            simp only [Option.map_some, Wildcard.extendsBound?_shift]
            cases w.extendsBound? with
            | none => exact isObject_shift n b
            | some c => exact hcheck b c
        | lower =>
          cases arg.openWildcard? with
          | none => exact hcheck arg b
          | some w =>
            simp only [Option.map_some, Wildcard.superBound?_shift]
            cases w.superBound? with
            | none => rfl
            | some c => exact hcheck c b
    | _ => cases hwild

theorem containsArgs_shift (wants args : List Ty) :
    s.containsArgs check (wants.map (shift n)) (args.map (shift n)) =
      s.containsArgs check wants args := by
  unfold containsArgs
  rw [List.zip_map, List.all_map]
  congr 1
  funext p
  exact containsArg_shift hcheck p.1 p.2

include hs

theorem classAssignable_shift (target source : ClassTy) :
    s.classAssignable check (target.shift n) (source.shift n) =
      s.classAssignable check target source := by
  unfold classAssignable
  rw [ClassTy.id_shift, ancestorArgs_shift hs]
  split
  · rfl
  · cases s.ancestorArgs source target.id with
    | none => rfl
    | some lifted =>
      simp only [Option.map_some, ClassTy.args_shift, List.isEmpty_map, List.length_map]
      rw [containsArgs_shift hcheck]

/-- A target that is not taken apart is checked against what the source stands for. -/
theorem assignableStep_shift_of_isPlain (boxing : Bool) {t u : Ty} (hplain : t.isPlain = true)
    (hprim : u.isPrim = false) :
    s.assignableStep boxing check (t.shift n) (u.shift n) = s.assignableStep boxing check t u := by
  have hany (us : List Ty) :
      ((us.map (shift n)).any fun u => check (t.shift n) u) = us.any fun u => check t u := by
    rw [List.any_map]
    exact congrArg us.any (funext fun u => hcheck t u)
  have hupper (w : Wildcard) :
      check (t.shift n) (s.wildcardUpper (w.shift n)) = check t (s.wildcardUpper w) := by
    rw [wildcardUpper_shift, hcheck]
  unfold assignableStep
  rw [isUnknown_shift, isUnknown_shift, beq_shift]
  congr 2
  -- A plain target has no say in which check is made, so the split is on the source.
  cases u with
  | prim q => cases hprim
  | param p =>
    have hbounds := hany (s.bounds p)
    have hobject := isObject_shift (s := s) n t
    rw [map_shift_bounds hs] at hbounds
    cases hp : s.bounds p <;> cases t <;> simp_all [shift, isPlain]
  | wild k b =>
    have h := hupper ⟨k, b⟩
    cases t <;> simp_all [shift, isPlain, Wildcard.shift]
  | captured i k b =>
    have h := hupper ⟨k, b⟩
    cases t <;> simp_all [shift, isPlain, Wildcard.shift]
  | inter us =>
    have h := hany us
    cases t <;> simp_all [shift, isPlain]
  | array u =>
    cases t with
    | array t =>
      have h := hcheck t u
      simp_all [shift]
    | _ => simp_all [shift, isPlain]
  | cls d brgs =>
    cases t with
    | cls c args =>
      have h := classAssignable_shift hs hcheck ⟨c, args⟩ ⟨d, brgs⟩
      simp_all [shift, ClassTy.shift]
    | _ => simp_all [shift, isPlain]
  | _ => cases t <;> simp_all [shift, isPlain]

omit hs in
theorem assignableStep_shift_prim (boxing : Bool) (t : Ty) (q : Primitive) :
    s.assignableStep boxing check (t.shift n) (.prim q) =
      s.assignableStep boxing check t (.prim q) := by
  have hsame : (t.shift n == .prim q) = (t == .prim q) := beq_shift n t (.prim q)
  unfold assignableStep
  rw [isUnknown_shift, hsame]
  congr 2
  cases hq : s.boxed? q with
  | none => cases t <;> simp_all [shift]
  | some b =>
    obtain ⟨c, rfl⟩ := eq_raw_of_boxed hq
    have h := hcheck t (.raw c)
    cases t <;> simp_all [shift, raw]

theorem assignableStep_shift (boxing : Bool) (t u : Ty) :
    s.assignableStep boxing check (t.shift n) (u.shift n) = s.assignableStep boxing check t u := by
  have hall (ts : List Ty) :
      ((ts.map (shift n)).all fun t => check t (u.shift n)) = ts.all fun t => check t u := by
    rw [List.all_map]
    exact congrArg ts.all (funext fun t => hcheck t u)
  cases hprim : u.isPrim with
  | true =>
    cases u with
    | prim q => exact assignableStep_shift_prim hcheck boxing t q
    | _ => cases hprim
  | false =>
    cases hplain : t.isPlain with
    | true => exact assignableStep_shift_of_isPlain hs hcheck boxing hplain hprim
    | false =>
      unfold assignableStep
      rw [isUnknown_shift, isUnknown_shift, beq_shift]
      split
      · rfl
      rename_i hknown
      congr 1
      cases t with
      | prim p =>
        have h := unboxed?_shift (s := s) n u
        cases u <;> simp_all [shift]
      | wild k b =>
        have href := isReference_shift n u
        cases b with
        | none => cases u <;> simp_all [shift, isPrim]
        | some b =>
          have h := hcheck b u
          cases u <;> simp_all [shift, isPrim]
      | inter ts =>
        have h := hall ts
        cases u <;> simp_all [shift, isPrim]
      | null => cases u <;> simp [shift]
      | unknown => cases hknown rfl
      | _ => cases hplain

end

section
include hs

theorem assignableWithin_shift (boxing : Bool) (k : Nat) :
    Timeless n (s.assignableWithin boxing k) := by
  induction k with
  | zero => exact fun _ _ => rfl
  | succ k ih => exact assignableStep_shift hs ih boxing

theorem assignable_shift (t u : Ty) :
    s.assignable (t.shift n) (u.shift n) = s.assignable t u :=
  assignableWithin_shift hs n true Limits.hierarchy t u

theorem subtype_shift (t u : Ty) : s.subtype (t.shift n) (u.shift n) = s.subtype t u :=
  assignableWithin_shift hs n false Limits.hierarchy t u

end

end Store

end GenericCalls
