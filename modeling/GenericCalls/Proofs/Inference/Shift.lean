import GenericCalls.Inference.Answer
import GenericCalls.Proofs.Lub.Shift
import GenericCalls.Proofs.Match.Shift
import GenericCalls.Ranking.Applicability

/-! # Inference from later captures

Every stage of inference shifts with the types and bindings that it is given: the evidence from
arguments, the types that follow from siblings, the answers of a context, the substitution that is
concluded from them, and the phase in which a candidate applies. -/

namespace GenericCalls

open Ty

/-! ### Signatures -/

namespace MethodDecl

variable {d : MethodDecl} (hd : d.captureFree = true)
include hd

theorem captureFree_returns : d.returns.captureFree = true :=
  (Bool.and_eq_true_iff.1 hd).2

theorem captureFree_formal {f : Formal} (hf : f ∈ d.formals) : f.ty.captureFree = true :=
  List.all_eq_true.1 (Bool.and_eq_true_iff.1 hd).1 f hf

theorem captureFree_formalAt? {index : Nat} {f : Formal} (hf : d.formalAt? index = some f) :
    f.ty.captureFree = true := by
  refine captureFree_formal hd ?_
  unfold formalAt? at hf
  split at hf
  · rename_i h
    cases hf
    exact List.mem_of_getElem? h
  · split at hf
    · exact List.mem_of_getLast? hf
    · cases hf

end MethodDecl

/-! ### Evidence from arguments -/

def Verdict.shift (n : Nat) : Verdict → Verdict
  | .resolved c => .resolved (c.shift n)
  | .unresolved => .unresolved
  | .failed => .failed
  | .raw => .raw

namespace Verdict

variable (n : Nat) (v : Verdict)

@[simp] theorem exactTy?_shift : (v.shift n).exactTy? = v.exactTy?.map (Ty.shift n) := by
  cases v with
  | resolved c =>
    simp only [shift, exactTy?, Constraint.shift]
    split <;> rfl
  | _ => rfl

@[simp] theorem upperTy?_shift : (v.shift n).upperTy? = v.upperTy?.map (Ty.shift n) := by
  cases v with
  | resolved c =>
    simp only [shift, upperTy?, Constraint.shift]
    split <;> rfl
  | _ => rfl

@[simp] theorem isFatal_shift : (v.shift n).isFatal = v.isFatal := by
  cases v <;> rfl

end Verdict

def Evidence.shift (n : Nat) (e : Evidence) : Evidence :=
  ⟨e.exact.map (Ty.shift n), e.captured.map (Ty.shift n), e.lower.map (Ty.shift n),
    e.upper.map (Ty.shift n)⟩

def ArgumentVerdict.shift (n : Nat) : ArgumentVerdict → ArgumentVerdict
  | .decided v => .decided (v.shift n)
  | .pending upper => .pending (upper.map (Ty.shift n))

def TypedArg.shift (n : Nat) (a : TypedArg) : TypedArg := { a with ty := a.ty.map (Ty.shift n) }

def Request.shift (n : Nat) (r : Request) : Request :=
  { r with args := r.args.map (TypedArg.shift n), given := r.given.shift n }

namespace Evidence

def shiftResult (n : Nat) : Except Verdict Evidence → Except Verdict Evidence
  | .ok e => .ok (e.shift n)
  | .error v => .error (v.shift n)

variable {s : Store} (hs : s.captureFree = true) (n : Nat) (e : Evidence)
include hs

theorem addConstraint_shift (c : Constraint) :
    (e.shift n).addConstraint s (c.shift n) = shiftResult n (e.addConstraint s c) := by
  obtain ⟨exact, captured, lower, upper⟩ := e
  obtain ⟨t, bearing⟩ := c
  cases bearing with
  | exactly =>
    simp only [addConstraint, Constraint.shift, shift, isWild_shift, Option.isSome_map]
    split
    · split <;> rfl
    · rfl
  | atLeast =>
    cases lower with
    | none => rfl
    | some u =>
      simp only [addConstraint, Constraint.shift, shift, Option.map_some, beq_shift,
        Store.lub_shift hs]
      split
      · rfl
      · cases s.lub u t <;> rfl
  | atMost => cases upper <;> rfl

theorem add_shift (r : MatchResult) :
    (e.shift n).add s (r.shift n) = shiftResult n (e.add s r) := by
  have hconstraint (c : Constraint) := e.addConstraint_shift hs n c
  obtain ⟨exact, captured, lower, upper⟩ := e
  cases exact with
  | none =>
    cases r with
    | found c => exact hconstraint c
    | _ => rfl
  | some t =>
    cases r with
    | found c =>
      simp only [add, MatchResult.shift, Constraint.shift, shift, Option.map_some, isWild_shift,
        beq_shift]
      split <;> rfl
    | _ => rfl

theorem addAll_shift (rs : List MatchResult) :
    (e.shift n).addAll s (rs.map (MatchResult.shift n)) = shiftResult n (e.addAll s rs) := by
  unfold addAll
  induction rs generalizing e with
  | nil => rfl
  | cons r rs ih =>
    rw [List.map_cons, List.foldlM_cons, List.foldlM_cons, add_shift hs]
    cases e.add s r with
    | error v => rfl
    | ok e => exact ih e

theorem decide?_shift : (e.shift n).decide? s = (e.decide? s).shift n := by
  obtain ⟨exact, captured, lower, upper⟩ := e
  cases exact with
  | some t => rfl
  | none =>
    cases captured with
    | none => cases lower <;> rfl
    | some w =>
      cases lower with
      | some b =>
        simp only [decide?, shift, Option.map_some, Option.map_none, Store.assignable_shift hs,
          Store.lub_shift hs]
        split
        · cases s.lub b w <;> rfl
        · rfl
      | none =>
        have hupper : ((upper.map (Ty.shift n)).all fun b => s.assignable b (w.shift n)) =
            upper.all fun b => s.assignable b w := by
          cases upper with
          | none => rfl
          | some b => exact Store.assignable_shift hs n b w
        simp only [decide?, shift, Option.map_some, Option.map_none, hupper]
        split <;> rfl

end Evidence

namespace Request

variable {r : Request} (hr : r.method.captureFree = true) (n : Nat)
include hr

theorem slot?_shift (index : Nat) (t : Ty) :
    (r.shift n).slot? index (t.shift n) =
      (r.slot? index t).map (Prod.map (Ty.shift n) (Ty.shift n)) := by
  have hlength : (r.shift n).args.length = r.args.length := List.length_map _
  have hmethod : (r.shift n).method = r.method := rfl
  unfold slot?
  rw [hmethod, hlength]
  cases hf : r.method.formalAt? index with
  | none => rfl
  | some f =>
    have hformal := shift_of_captureFree n _ (MethodDecl.captureFree_formalAt? hr hf)
    have hcomponent : f.ty.component?.map (Ty.shift n) = f.ty.component? := by
      rw [← component?_shift, hformal]
    have hparts : (if r.args.length = r.method.formals.length then (t.shift n).component? else none) =
        (if r.args.length = r.method.formals.length then t.component? else none).map
          (Ty.shift n) := by
      rw [component?_shift]
      split <;> rfl
    rw [Option.map_some, Option.map_some, hparts]
    congr 1
    split
    · rw [Prod.map_apply, hformal]
    · rename_i c hc
      have hshift : c.shift n = c := by
        split at hc
        · rw [hc, Option.map_some, Option.some_inj] at hcomponent
          exact hcomponent
        · cases hc
      cases if r.args.length = r.method.formals.length then t.component? else none with
      | none => rw [Option.map_none, Prod.map_apply, hshift]
      | some u =>
        simp only [Option.map_some, isPrim_shift]
        split <;> rw [Prod.map_apply, hshift]

theorem slots_shift (blocked : CallId → Bool) :
    (r.shift n).slots blocked = (r.slots blocked).map (Prod.map (Ty.shift n) (Ty.shift n)) := by
  have hargs : (r.shift n).args = r.args.map (TypedArg.shift n) := rfl
  unfold slots
  rw [hargs, List.zipIdx_map]
  refine filterMap_map_eq (fun entry => ?_) _
  obtain ⟨⟨ty, call⟩, index⟩ := entry
  show (if call.any blocked then none else (ty.map (Ty.shift n)).bind ((r.shift n).slot? index)) =
    Option.map _ (if call.any blocked then none else ty.bind (r.slot? index))
  split
  · rfl
  · cases ty with
    | none => rfl
    | some t => exact slot?_shift hr n index t

theorem results_shift {s : Store} (hs : s.captureFree = true) (blocked : CallId → Bool)
    (p : ParamId) :
    (r.shift n).results s blocked p = (r.results s blocked p).map (MatchResult.shift n) := by
  unfold results
  rw [slots_shift hr, List.map_map, List.map_map]
  exact List.map_congr_left fun slot _ => Store.constrain_shift hs n p .intoFormal slot.1 slot.2

theorem argumentVerdict_shift {s : Store} (hs : s.captureFree = true) (blocked : CallId → Bool)
    (p : ParamId) :
    (r.shift n).argumentVerdict s blocked p = (r.argumentVerdict s blocked p).shift n := by
  have hadd : ({} : Evidence).addAll s _ = _ :=
    Evidence.addAll_shift hs n {} (r.results s blocked p)
  unfold argumentVerdict
  rw [results_shift hr n hs, hadd]
  cases ({} : Evidence).addAll s (r.results s blocked p) with
  | error v => rfl
  | ok e => exact e.decide?_shift hs n

end Request

/-! ### Evidence from siblings -/

namespace Store

variable {s : Store} (hs : s.captureFree = true) (n : Nat)

section
include hs

theorem lubAll_shift (ts : List Ty) :
    s.lubAll (ts.map (Ty.shift n)) = (s.lubAll ts).map (Ty.shift n) := by
  cases ts with
  | nil => rfl
  | cons t ts =>
    simp only [List.map_cons, lubAll]
    induction ts generalizing t with
    | nil => rfl
    | cons u ts ih =>
      rw [List.map_cons, List.foldlM_cons, List.foldlM_cons, lub_shift hs]
      cases s.lub t u with
      | none => rfl
      | some v => exact ih v

end

theorem firstExact?_shift (cs : List Constraint) :
    firstExact? (cs.map (Constraint.shift n)) = (firstExact? cs).map (Ty.shift n) := by
  unfold firstExact?
  rw [List.find?_map, Option.map_map, Option.map_map]
  rfl

theorem lowerBounds_shift (cs : List Constraint) :
    lowerBounds (cs.map (Constraint.shift n)) = (lowerBounds cs).map (Ty.shift n) := by
  unfold lowerBounds
  rw [List.filter_map, List.map_map, List.map_map]
  rfl

section
include hs

theorem siblingBounds_shift (given : Substitution) (params : List ParamId)
    (known : List (Option Ty)) (index : Nat) :
    s.siblingBounds (given.shift n) params (known.map (Option.map (Ty.shift n))) index =
      (s.siblingBounds given params known index).map (Prod.map (Ty.shift n) (Ty.shift n)) := by
  unfold siblingBounds
  rw [List.zip_map_right, List.zipIdx_map, List.flatMap_map, List.map_flatMap]
  refine congrArg (List.flatMap · _) (funext fun entry => ?_)
  obtain ⟨⟨q, t⟩, i⟩ := entry
  cases t with
  | none => rfl
  | some t =>
    show (if i = index then [] else (s.bounds q).filterMap fun b =>
        ((given.shift n).substitute b).map (·, t.shift n)) =
      List.map _ (if i = index then [] else (s.bounds q).filterMap fun b =>
        (given.substitute b).map (·, t))
    split
    · rfl
    · rw [List.map_filterMap]
      refine List.filterMap_congr fun b hb => ?_
      have hfree := captureFreeAll_iff.1 (captureFree_bounds hs q) b hb
      rw [Substitution.substitute_shift_of_captureFree n given hfree, Option.map_map,
        Option.map_map]
      rfl

theorem fromSiblings_shift (given : Substitution) (params : List ParamId)
    (known : List (Option Ty)) (index : Nat) (p : ParamId) :
    s.fromSiblings (given.shift n) params (known.map (Option.map (Ty.shift n))) index p =
      (s.fromSiblings given params known index p).map (Ty.shift n) := by
  rw [fromSiblings_eq, fromSiblings_eq, siblingBounds_shift hs]
  generalize s.siblingBounds given params known index = bs
  have hshift : s.siblingConstraints p (bs.map (Prod.map (Ty.shift n) (Ty.shift n))) =
      (s.siblingConstraints p bs).map (Constraint.shift n) := by
    refine filterMap_map_eq (fun slot => ?_) _
    exact (congrArg _ (constrain_shift hs n p .intoFormal slot.1 slot.2)).trans
      (MatchResult.constraint?_shift n _)
  rw [hshift, firstExact?_shift, lowerBounds_shift, lubAll_shift hs]
  cases firstExact? (s.siblingConstraints p bs) <;> rfl

theorem reconcileFrom_shift (given : Substitution) (params : List ParamId)
    (todo : List (ParamId × Nat)) (known : List (Option Ty)) :
    s.reconcileFrom (given.shift n) params todo (known.map (Option.map (Ty.shift n))) =
      (s.reconcileFrom given params todo known).map (Option.map (Ty.shift n)) := by
  induction todo generalizing known with
  | nil => rfl
  | cons entry todo ih =>
    obtain ⟨p, i⟩ := entry
    simp only [reconcileFrom, List.getElem?_map]
    rcases known[i]? with _ | _ | t
    · exact ih known
    · simp only [Option.map_some, Option.map_none]
      rw [fromSiblings_shift hs, ← List.map_set, ih]
    · exact ih known

theorem reconcile_shift (given : Substitution) (params : List ParamId)
    (known : List (Option Ty)) :
    s.reconcile (given.shift n) params (known.map (Option.map (Ty.shift n))) =
      (s.reconcile given params known).map (Option.map (Ty.shift n)) :=
  reconcileFrom_shift hs n given params params.zipIdx known

end

end Store

/-! ### Evidence from the context -/

def Candidate.shift (n : Nat) (c : Candidate) : Candidate :=
  { c with substitution := c.substitution.shift n }

namespace Engine

variable {s : Store} (hs : s.captureFree = true) {e : Engine} (he : e.store.captureFree = true)
  (n : Nat)

section
include hs

theorem narrow_shift (given : Substitution) (p : ParamId) {bs : List Ty}
    (hbs : captureFreeAll bs = true) (guess : Ty) :
    narrow s (given.shift n) p (guess.shift n) bs = (narrow s given p guess bs).shift n := by
  induction bs generalizing guess with
  | nil => rfl
  | cons b bs ih =>
    obtain ⟨hb, hbs⟩ := Bool.and_eq_true_iff.1 hbs
    rw [narrow, narrow, Substitution.putTy_shift,
      Substitution.substitute_shift_of_captureFree n _ hb]
    cases (given.putTy p guess).substitute b with
    | none => rfl
    | some b =>
      simp only [Option.map_some, Store.assignable_shift hs, ih hbs]
      split
      · rfl
      · split <;> rfl

theorem instantiate_shift (σ : Substitution) (t : Ty) :
    instantiate s (σ.shift n) (t.shift n) = (instantiate s σ t).shift n := by
  unfold instantiate
  rw [Substitution.substitute_shift, Store.erasure_shift hs]
  cases σ.substitute t <;> rfl

end

theorem captureFree_formalFor? {method : MethodDecl} (hmethod : method.captureFree = true)
    {index : Nat} {returns t : Ty} (h : formalFor? method index returns = some t) :
    t.captureFree = true := by
  have hcomponent {f : Formal} {c : Ty} (hf : f ∈ method.formals) (hc : f.ty.component? = some c) :
      c.captureFree = true := by
    have hfree := MethodDecl.captureFree_formal hmethod hf
    cases hty : f.ty with
    | array u =>
      rw [hty] at hc hfree
      cases hc
      exact hfree
    | _ =>
      rw [hty] at hc
      cases hc
  unfold formalFor? at h
  split at h
  · obtain ⟨f, hf, rfl⟩ := Option.map_eq_some_iff.1 h
    have hmem := List.mem_of_getLast? hf
    split
    · rename_i hc _
      split
      · exact MethodDecl.captureFree_formal hmethod hmem
      · exact hcomponent hmem hc
    · rename_i hc _
      exact hcomponent hmem hc
    · exact MethodDecl.captureFree_formal hmethod hmem
  · obtain ⟨f, hf, rfl⟩ := Option.map_eq_some_iff.1 h
    exact MethodDecl.captureFree_formal hmethod (List.mem_of_getElem? hf)

section
include he

theorem refine_shift (p : ParamId) (r : Request) (c : Constraint) :
    e.refine p (r.shift n) (c.shift n) = (e.refine p r c).shift n := by
  have hguess : (if (e.options.isBestEffort && !(c.shift n).ty.isWild) = true then
      Ty.extending (c.shift n).ty else (c.shift n).ty) =
      (if (e.options.isBestEffort && !c.ty.isWild) = true then Ty.extending c.ty else c.ty).shift
        n := by
    rw [Constraint.shift, isWild_shift]
    split <;> rfl
  have hreturns : (r.shift n).method.returns = r.method.returns := rfl
  unfold refine
  dsimp only
  rw [hguess, hreturns]
  split
  · exact congrArg (Constraint.mk · c.bearing)
      (narrow_shift he n r.given p (Store.captureFree_bounds he p) _)
  · rfl

theorem fromBound_shift (p : ParamId) (r : Request) :
    e.fromBound p (r.shift n) = (e.fromBound p r).shift n := by
  have hbound : ((e.store.primaryBound? p).bind ((r.shift n).given.put p .erased).substitute).getD
      e.store.object = (((e.store.primaryBound? p).bind (r.given.put p .erased).substitute).getD
      e.store.object).shift n := by
    have hgiven : (r.shift n).given.put p .erased = (r.given.put p .erased).shift n :=
      Substitution.put_erased_shift n r.given p
    rw [hgiven]
    cases hb : e.store.primaryBound? p with
    | none => rfl
    | some b =>
      have hfree := captureFreeAll_iff.1 (Store.captureFree_bounds he p) b (List.mem_of_mem_head? hb)
      rw [Option.bind_some, Option.bind_some, Substitution.substitute_shift_of_captureFree n _ hfree]
      cases (r.given.put p .erased).substitute b <;> rfl
  unfold fromBound
  dsimp only
  rw [hbound, isWild_shift]
  split <;> rfl

theorem fromExpected_shift {r : Request} (hr : r.method.captureFree = true) (p : ParamId)
    (expected : Option Ty) :
    e.fromExpected p (r.shift n) (expected.map (Ty.shift n)) =
      (e.fromExpected p r expected).shift n := by
  have hreturns := shift_of_captureFree n _ (MethodDecl.captureFree_returns hr)
  have hexpected : (expected.map (Ty.shift n)).getD
      (if e.options.isBestEffort then .null else e.store.object) =
      (expected.getD (if e.options.isBestEffort then .null else e.store.object)).shift n := by
    cases expected with
    | none =>
      show (if _ then _ else _) = Ty.shift n (if _ then _ else _)
      split <;> rfl
    | some t => rfl
  have hmethod : (r.shift n).method = r.method := rfl
  have hconstrain := Store.constrain_shift he n p .intoContext r.method.returns
    (expected.getD (if e.options.isBestEffort then .null else e.store.object))
  rw [hreturns] at hconstrain
  unfold fromExpected
  dsimp only
  rw [hmethod, hexpected, hconstrain]
  cases e.store.constrain p .intoContext r.method.returns _ with
  | found c => exact refine_shift he n p r c
  | _ => exact fromBound_shift he n p r

theorem fromCandidate?_shift (p : ParamId) (index : Nat) {returns : Ty}
    (hreturns : returns.captureFree = true) (c : Candidate) :
    e.fromCandidate? p index returns (c.shift n) =
      (e.fromCandidate? p index returns c).map (Constraint.shift n) := by
  have hmethod : (c.shift n).method = c.method := rfl
  have hsubstitution : (c.shift n).substitution = c.substitution.shift n := rfl
  unfold fromCandidate?
  rw [hmethod, hsubstitution]
  cases hm : e.store.method? c.method with
  | none => rfl
  | some method =>
    cases hf : formalFor? method index returns with
    | none => simp [hf]
    | some formal =>
      have hfree := captureFree_formalFor? (Store.captureFree_method he hm) hf
      have h := Store.constrain_shift he n p .intoContext returns
        (instantiate e.store c.substitution formal)
      rw [shift_of_captureFree n _ hreturns, ← instantiate_shift he,
        shift_of_captureFree n _ hfree] at h
      simp [hf, h]

end

/-! ### Answers -/

theorem settleOpen_shift (upper : Option Ty) (c : Option Constraint) :
    settleOpen (upper.map (Ty.shift n)) (c.map (Constraint.shift n)) =
      (settleOpen upper c).shift n := by
  cases c with
  | none => cases upper <;> rfl
  | some c =>
    simp only [Option.map_some, settleOpen, Constraint.shift]
    split
    · cases upper <;> rfl
    · rfl

theorem bindAll?_shift (given : Substitution) (bs : List (ParamId × Option Ty)) :
    bindAll? (given.shift n) (bs.map (Prod.map id (Option.map (Ty.shift n)))) =
      (bindAll? given bs).map (Substitution.shift n) := by
  induction bs generalizing given with
  | nil => rfl
  | cons b bs ih =>
    obtain ⟨p, _ | t⟩ := b
    · rfl
    · simp only [List.map_cons, Prod.map_apply, id_eq, Option.map_some, bindAll?, mentions_shift,
        Substitution.putTy_shift]
      split
      · exact ih given
      · exact ih (given.putTy p t)

section
include hs

theorem found_shift (r : Request) (vs : List Verdict) :
    found s (r.shift n) (vs.map (Verdict.shift n)) =
      (found s r vs).map (Option.map (Ty.shift n)) := by
  have hknown : (vs.map (Verdict.shift n)).map Verdict.exactTy? =
      (vs.map Verdict.exactTy?).map (Option.map (Ty.shift n)) := by
    rw [List.map_map, List.map_map]
    exact List.map_congr_left fun v _ => v.exactTy?_shift n
  have hgiven : (r.shift n).given = r.given.shift n := rfl
  have hparams : (r.shift n).typeParams = r.typeParams := rfl
  unfold found
  rw [hknown, hgiven, hparams, Store.reconcile_shift hs, List.zipWith_map, List.map_zipWith]
  refine congrArg (List.zipWith · _ vs) (funext fun t => funext fun v => ?_)
  rw [Verdict.upperTy?_shift]
  cases t <;> rfl

theorem conclude_shift (r : Request) (vs : List Verdict) :
    conclude s (r.shift n) (vs.map (Verdict.shift n)) = (conclude s r vs).shift n := by
  have hfatal : (vs.map (Verdict.shift n)).any Verdict.isFatal = vs.any Verdict.isFatal := by
    rw [List.any_map]
    exact congrArg vs.any (funext fun v => v.isFatal_shift n)
  have hgiven : (r.shift n).given = r.given.shift n := rfl
  have hparams : (r.shift n).typeParams = r.typeParams := rfl
  unfold conclude
  rw [hfatal, hgiven, hparams, found_shift hs, Substitution.eraseAll_shift, List.zip_map_right,
    bindAll?_shift]
  split
  · rfl
  · cases bindAll? r.given (r.typeParams.zip (found s r vs)) <;> rfl

end

/-! ### Phases -/

section
include hs

theorem fits_shift (strict : Bool) (formal : Ty) (arg : TypedArg) :
    fits s strict (formal.shift n) (arg.shift n) = fits s strict formal arg := by
  obtain ⟨_ | t, call⟩ := arg
  · rfl
  · have hassignable := Store.assignable_shift hs n formal t
    have hsubtype := Store.subtype_shift hs n formal t
    simp only [fits, TypedArg.shift, Option.map_some]
    cases t <;> simp_all [shift]

theorem fitAll_shift (strict : Bool) (formals : List Ty) (args : List TypedArg) :
    fitAll s strict (formals.map (Ty.shift n)) (args.map (TypedArg.shift n)) =
      fitAll s strict formals args := by
  unfold fitAll
  rw [List.zip_map, List.all_map]
  exact congrArg (List.all _) (funext fun pair => fits_shift hs n strict pair.1 pair.2)

theorem fitVariadic_shift (formals : List Ty) (args : List TypedArg) :
    fitVariadic s (formals.map (Ty.shift n)) (args.map (TypedArg.shift n)) =
      fitVariadic s formals args := by
  have hlast : (formals.map (Ty.shift n)).getLast?.bind Ty.component? =
      (formals.getLast?.bind Ty.component?).map (Ty.shift n) := by
    rw [List.getLast?_map]
    cases formals.getLast? with
    | none => rfl
    | some t => exact component?_shift n t
  unfold fitVariadic
  rw [hlast]
  cases formals.getLast?.bind Ty.component? with
  | none => rfl
  | some c =>
    have hrest : fits s false (c.shift n) ∘ TypedArg.shift n = fits s false c :=
      funext fun arg => fits_shift hs n false c arg
    dsimp only [Option.map_some]
    rw [← List.map_dropLast, List.length_map, List.length_map, ← List.map_take, ← List.map_drop,
      fitAll_shift hs, List.all_map, hrest]

theorem phaseOf_shift {method : MethodDecl} (hmethod : method.captureFree = true)
    (σ : Substitution) (args : List TypedArg) :
    phaseOf s method (σ.shift n) (args.map (TypedArg.shift n)) = phaseOf s method σ args := by
  have hformals : (method.formals.map fun f => instantiate s (σ.shift n) f.ty) =
      (method.formals.map fun f => instantiate s σ f.ty).map (Ty.shift n) := by
    rw [List.map_map]
    refine List.map_congr_left fun f hf => ?_
    have hfree := MethodDecl.captureFree_formal hmethod hf
    show instantiate s (σ.shift n) f.ty = (instantiate s σ f.ty).shift n
    rw [← instantiate_shift hs, shift_of_captureFree n _ hfree]
  unfold phaseOf
  simp only [hformals, fitAll_shift hs, fitVariadic_shift hs, List.length_map]

end

end Engine

end GenericCalls
