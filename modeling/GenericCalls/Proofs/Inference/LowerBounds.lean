import GenericCalls.Proofs.Lub.Uniform
import GenericCalls.Proofs.Ranking.Runs

/-! # Answers from lower bounds

A method whose formals are all of one type parameter puts only lower bounds on it, which are joined
from left to right. Where all arguments are used uniformly, the join accepts all of them, also those
from before the last step, and the method applies. -/

namespace GenericCalls

/-! ### Merging many types -/

namespace Store

variable {s : Store} {ts : List Ty} {t c : Ty}

/-- Regular types of a regular store that may be joined from left to right: two of them at most, or
all used uniformly, and the limit on nested checks does not matter. -/
structure Mergeable (s : Store) (ts : List Ty) : Prop where
  store : s.Regular
  regular : ∀ t ∈ ts, t.regular = true
  few_or_uniform : ts.length ≤ 2 ∨ ∃ U, s.Uniform U ∧ ∀ t ∈ ts, Keeps s U t
  steps : ∀ t us, ts = t :: us → FoldWithinLimit s t us
  checks : ∀ c, s.lubAll ts = some c → ∀ t ∈ ts, WithinLimit s c t

theorem Mergeable.accepts (h : s.Mergeable ts) (hc : s.lubAll ts = some c) :
    ∀ t ∈ ts, Accepts s true c t := by
  cases ts with
  | nil => exact fun t ht => absurd ht List.not_mem_nil
  | cons t us =>
    have hlimit := h.steps t us rfl
    rcases h.few_or_uniform with hfew | ⟨U, hU, hkeeps⟩
    · -- With one step nothing has to pass through a join.
      cases us with
      | nil =>
        cases hc
        have hknown := Ty.isUnknown_of_regular (h.regular c List.mem_cons_self)
        exact List.forall_mem_singleton.2 (accepts_self hknown)
      | cons u us =>
        obtain rfl : us = [] := List.length_eq_zero_iff.1 (by simpa using hfew)
        have hlub : s.lub t u = some c := by
          obtain ⟨v, hv, hpure⟩ := Option.bind_eq_some_iff.1 hc
          cases hpure
          exact hv
        have hregular := List.forall_mem_cons.1 h.regular
        have hright := hregular.2 u List.mem_cons_self
        obtain ⟨hct, hcu⟩ := h.store.accepts_lub hregular.1 hright hlimit.1 hlub
        exact List.forall_mem_cons.2 ⟨hct, List.forall_mem_singleton.2 hcu⟩
    · obtain ⟨ht, hus⟩ := List.forall_mem_cons.1 hkeeps
      obtain ⟨_, hct, hcus⟩ := hU.accepts_foldlM ht hus hlimit hc
      exact List.forall_mem_cons.2 ⟨hct, hcus⟩

theorem Mergeable.assignable (h : s.Mergeable ts) (hc : s.lubAll ts = some c) :
    ∀ t ∈ ts, s.assignable c t = true :=
  fun t ht => (h.checks c hc t ht).assignable (h.accepts hc t ht)

theorem lub_of_beq {a b : Ty} (h : (a == b) = true) (ha : a.isUnknown = false)
    (hb : b.isUnknown = false) : s.lub a b = some a := by
  obtain ⟨n, hn⟩ := Nat.exists_eq_succ_of_ne_zero (Nat.ne_of_gt (s.lubBudget_pos a b))
  unfold lub
  rw [hn, lubWithin, lubStep_settled (.same (by rw [ha, hb]; rfl) h)]
  rfl

end Store

/-! ### Evidence -/

namespace Evidence

theorem add_atLeast (s : Store) (t : Ty) (c : ClassTy) :
    ({ lower := some t } : Evidence).add s (.found ⟨c.toTy, .atLeast⟩) =
      (s.lub t c.toTy).elim (.error .failed) fun u => .ok { lower := some u } := by
  show (if t == c.toTy then Except.ok ({ lower := some t } : Evidence) else _) = _
  split
  · rename_i hsame
    rw [Store.lub_of_beq hsame (Store.isUnknown_eq_of_beq hsame) rfl]
    rfl
  · cases s.lub t c.toTy <;> rfl

theorem addAll_atLeast (s : Store) (t : Ty) (cs : List ClassTy) :
    ({ lower := some t } : Evidence).addAll s (cs.map fun c => .found ⟨c.toTy, .atLeast⟩) =
      ((cs.map ClassTy.toTy).foldlM (fun u v => s.lub u v) t).elim (.error .failed)
        fun u => .ok { lower := some u } := by
  induction cs generalizing t with
  | nil => rfl
  | cons c cs ih =>
    have hcons : ({ lower := some t } : Evidence).addAll s
        ((c :: cs).map fun c => .found ⟨c.toTy, .atLeast⟩) =
          ({ lower := some t } : Evidence).add s (.found ⟨c.toTy, .atLeast⟩) >>= fun e =>
            e.addAll s (cs.map fun c => .found ⟨c.toTy, .atLeast⟩) := rfl
    rw [hcons, add_atLeast, List.map_cons, List.foldlM_cons]
    cases s.lub t c.toTy with
    | none => rfl
    | some u => exact ih u

end Evidence

/-! ### Methods of one parameter -/

/-- The formals of a method are `k` times one parameter, and if the method has variable arity, one
more for any number of arguments. -/
structure TakesOnly (method : MethodDecl) (p : ParamId) (k : Nat) : Prop where
  formals : method.formals.map Formal.ty =
    List.replicate k (.param p) ++ if method.variadic then [.array (.param p)] else []

namespace TakesOnly

variable {s : Store} {method : MethodDecl} {p : ParamId} {k i : Nat} {r : Request}
  {ts : List ClassTy} {t : Ty}

theorem length_formals (h : TakesOnly method p k) :
    method.formals.length = if method.variadic then k + 1 else k := by
  have hlength := congrArg List.length h.formals
  rw [List.length_map, List.length_append, List.length_replicate] at hlength
  rw [hlength]
  split <;> rfl

theorem formalAt?_fixed (h : TakesOnly method p k) (hi : i < k) :
    (method.formalAt? i).map Formal.ty = some (.param p) := by
  have hformal : (method.formals[i]?).map Formal.ty = some (.param p) := by
    rw [← List.getElem?_map, h.formals, List.getElem?_append_left (by simpa using hi),
      List.getElem?_replicate_of_lt hi]
  obtain ⟨f, hf, hty⟩ := Option.map_eq_some_iff.1 hformal
  unfold MethodDecl.formalAt?
  rw [hf]
  exact congrArg some hty

theorem formalAt?_variadic (h : TakesOnly method p k) (hvariadic : method.variadic = true)
    (hi : k ≤ i) : (method.formalAt? i).map Formal.ty = some (.array (.param p)) := by
  have hformals := h.formals
  rw [hvariadic, if_pos rfl] at hformals
  have hlast : method.formals.getLast?.map Formal.ty = some (.array (.param p)) := by
    rw [← List.getLast?_map, hformals, List.getLast?_append]
    rfl
  unfold MethodDecl.formalAt?
  split
  · rename_i f hf
    -- The last formal itself stands at the position.
    have hty : (method.formals.map Formal.ty)[i]? = some f.ty := by rw [List.getElem?_map, hf]; rfl
    rw [hformals, List.getElem?_append_right (by simpa using hi), List.length_replicate] at hty
    cases hplace : i - k with
    | zero =>
      rw [hplace] at hty
      exact congrArg some (Option.some.inj hty).symm
    | succ j =>
      rw [hplace] at hty
      cases hty
  · rw [hvariadic]
    exact hlast

theorem slot?_eq (h : TakesOnly r.method p k) (c : ClassTy)
    (hi : r.method.variadic = false → i < k) : r.slot? i c.toTy = some (.param p, c.toTy) := by
  have hplain : c.toTy.component? = none := rfl
  by_cases hlt : i < k
  · obtain ⟨f, hf, hty⟩ := Option.map_eq_some_iff.1 (h.formalAt?_fixed hlt)
    unfold Request.slot?
    rw [hf, Option.map_some, hty, hplain]
    cases r.method.isVariadicAt i <;> rfl
  · have hvariadic : r.method.variadic = true := by
      cases hv : r.method.variadic with
      | true => rfl
      | false => exact absurd (hi hv) hlt
    obtain ⟨f, hf, hty⟩ :=
      Option.map_eq_some_iff.1 (h.formalAt?_variadic hvariadic (Nat.le_of_not_lt hlt))
    have hlength := h.length_formals
    rw [hvariadic, if_pos rfl] at hlength
    have hat : r.method.isVariadicAt i = true := by
      unfold MethodDecl.isVariadicAt
      have hne : r.method.formals.isEmpty = false := by
        rw [List.isEmpty_eq_false_iff, ← List.length_pos_iff, hlength]
        exact Nat.succ_pos k
      rw [hvariadic, hne, hlength, decide_eq_true (by omega)]
      rfl
    unfold Request.slot?
    rw [hf, Option.map_some, hty, hat, hplain]
    simp only [if_true, Ty.component?, ite_self]

theorem results_eq (h : TakesOnly r.method p k)
    (hargs : r.args = (ts.map ClassTy.toTy).map fun t => { ty := some t })
    (hcount : r.method.variadic = false → ts.length ≤ k) (blocked : CallId → Bool) :
    r.results s blocked p = ts.map fun c => .found ⟨c.toTy, .atLeast⟩ := by
  have hslots : r.slots blocked = ts.map fun c => (.param p, c.toTy) := by
    rw [Engine.slots_of_typed r hargs, List.zipIdx_map, List.filterMap_map]
    have hslot : ∀ e ∈ ts.zipIdx, r.slot? e.2 e.1.toTy = some (.param p, e.1.toTy) := by
      intro e he
      refine h.slot?_eq e.1 fun hfixed => ?_
      exact (List.snd_lt_of_mem_zipIdx he).trans_le (by simpa using hcount hfixed)
    calc ts.zipIdx.filterMap (fun e => r.slot? e.2 e.1.toTy)
        = ts.zipIdx.filterMap fun e => some (.param p, e.1.toTy) := List.filterMap_congr hslot
      _ = ts.zipIdx.map fun e => (.param p, e.1.toTy) := congrFun List.filterMap_eq_map' _
      _ = (ts.zipIdx.map Prod.fst).map fun c => (.param p, c.toTy) := by rw [List.map_map]; rfl
      _ = ts.map fun c => (.param p, c.toTy) := by rw [List.zipIdx_map_fst]
  unfold Request.results
  rw [hslots, List.map_map]
  refine List.map_congr_left fun c _ => ?_
  have hconstrain : s.constrain p .intoFormal (.param p) c.toTy =
      if p = p && !c.toTy.isNull && !c.toTy.isUnknown then .found ⟨c.toTy, .atLeast⟩
      else .noInfo := rfl
  exact hconstrain.trans (by simp [ClassTy.toTy, Ty.isNull, Ty.isUnknown])

theorem argumentVerdict_eq (h : TakesOnly r.method p k)
    (hargs : r.args = (ts.map ClassTy.toTy).map fun t => { ty := some t }) (hne : ts ≠ [])
    (hcount : r.method.variadic = false → ts.length ≤ k) (blocked : CallId → Bool) :
    r.argumentVerdict s blocked p = .decided ((s.lubAll (ts.map ClassTy.toTy)).elim .failed
      fun c => .resolved ⟨c, .exactly⟩) := by
  unfold Request.argumentVerdict
  rw [h.results_eq hargs hcount]
  cases ts with
  | nil => exact absurd rfl hne
  | cons c cs =>
    have hfirst : ({} : Evidence).addAll s
        ((c :: cs).map fun c => .found ⟨c.toTy, .atLeast⟩) =
          ({ lower := some c.toTy } : Evidence).addAll s
            (cs.map fun c => .found ⟨c.toTy, .atLeast⟩) := rfl
    rw [hfirst, Evidence.addAll_atLeast]
    have hall : s.lubAll ((c :: cs).map ClassTy.toTy) =
        (cs.map ClassTy.toTy).foldlM (fun u v => s.lub u v) c.toTy := rfl
    rw [hall]
    cases (cs.map ClassTy.toTy).foldlM (fun u v => s.lub u v) c.toTy <;> rfl

/-! ### Applicability -/

theorem instantiate_param {σ : Substitution} (hget : σ.get? p = some (.bound t)) :
    Engine.instantiate s σ (.param p) = t ∧
      Engine.instantiate s σ (.array (.param p)) = .array t := by
  have hsome : σ.isEmpty = false := by
    cases hempty : σ.isEmpty with
    | false => rfl
    | true => cases (Substitution.get?_of_isEmpty hempty p).symm.trans hget
  unfold Engine.instantiate Substitution.substitute
  simp only [hsome, Bool.false_eq_true, if_false, Substitution.apply, hget, Option.map_some,
    Option.getD_some, and_self]

theorem map_instantiate (h : TakesOnly method p k) {σ : Substitution}
    (hget : σ.get? p = some (.bound t)) :
    (method.formals.map fun f => Engine.instantiate s σ f.ty) =
      List.replicate k t ++ if method.variadic then [.array t] else [] := by
  obtain ⟨hparam, harray⟩ := instantiate_param (s := s) hget
  have hmap := congrArg (List.map (Engine.instantiate s σ)) h.formals
  rw [List.map_map, List.map_append, List.map_replicate, hparam] at hmap
  refine hmap.trans ?_
  split
  · rw [List.map_singleton, harray]
  · rfl

theorem fitAll_replicate {as : List TypedArg} (h : ∀ a ∈ as, Engine.fits s false t a = true) :
    Engine.fitAll s false (List.replicate k t) as = true := by
  refine List.all_eq_true.2 ?_
  rintro ⟨u, a⟩ hmem
  obtain ⟨hu, ha⟩ := List.of_mem_zip hmem
  rw [List.eq_of_mem_replicate hu]
  exact h a ha

theorem fitVariadic_replicate {as : List TypedArg} (hlength : k ≤ as.length)
    (h : ∀ a ∈ as, Engine.fits s false t a = true) :
    Engine.fitVariadic s (List.replicate k t ++ [.array t]) as = true := by
  unfold Engine.fitVariadic
  rw [List.getLast?_append, List.dropLast_concat]
  simp only [List.getLast?_singleton, Option.some_or, Option.bind_some, Ty.component?,
    List.length_replicate, Bool.and_eq_true, decide_eq_true_eq]
  refine ⟨⟨hlength, fitAll_replicate fun a ha => h a (List.mem_of_mem_take ha)⟩, ?_⟩
  exact List.all_eq_true.2 fun a ha => h a (List.mem_of_mem_drop ha)

theorem phaseOf_applicable {σ : Substitution} {as : List TypedArg} {formals : List Ty}
    (hformals : (method.formals.map fun f => Engine.instantiate s σ f.ty) = formals)
    (h : as.length = formals.length ∧ Engine.fitAll s false formals as = true ∨
      method.variadic = true ∧ Engine.fitVariadic s formals as = true) :
    Engine.phaseOf s method σ as ≠ .inapplicable := by
  unfold Engine.phaseOf
  dsimp only
  rw [hformals]
  split_ifs with hexact hboxing hvariadic
  · decide
  · decide
  · decide
  · exact absurd h (not_or.2 ⟨hboxing, hvariadic⟩)

/-- A method applies to arguments of class types that what its parameter is bound to accepts. -/
theorem phaseOf_ne_inapplicable (h : TakesOnly method p k) {σ : Substitution}
    (hget : σ.get? p = some (.bound t))
    (hcount : if method.variadic then k ≤ ts.length else ts.length = k)
    (haccepts : ∀ a ∈ ts, s.assignable t a.toTy = true) :
    Engine.phaseOf s method σ ((ts.map ClassTy.toTy).map fun t => { ty := some t }) ≠
      .inapplicable := by
  let args : List TypedArg := (ts.map ClassTy.toTy).map fun t => { ty := some t }
  have hlength : args.length = ts.length := by rw [List.length_map, List.length_map]
  have hfits : ∀ a ∈ args, Engine.fits s false t a = true := by
    intro a ha
    obtain ⟨u, hu, rfl⟩ := List.mem_map.1 ha
    obtain ⟨c, hc, rfl⟩ := List.mem_map.1 hu
    exact haccepts c hc
  refine phaseOf_applicable (h.map_instantiate hget) ?_
  cases hvariadic : method.variadic with
  | true =>
    rw [hvariadic, if_pos rfl] at hcount
    exact .inr ⟨rfl, fitVariadic_replicate (hlength ▸ hcount) hfits⟩
  | false =>
    rw [hvariadic, if_neg Bool.false_ne_true] at hcount
    rw [if_neg Bool.false_ne_true, List.append_nil, List.length_replicate]
    exact .inl ⟨hlength.trans hcount, fitAll_replicate hfits⟩

end TakesOnly

/-! ### Calls -/

namespace Engine
open Run

/-- A call in a session without explicit type arguments, with the method `m` among its candidates,
and with arguments of class types that become `ts` once their wildcards are captured. -/
structure IsCallWith (e : Engine) (session : Session) (site : CallSite) (m : MethodId)
    (method : MethodDecl) (ts : List ClassTy) : Prop where
  known : e.store.method? m = some method
  candidate : m ∈ site.candidates
  declared : ∀ id ∈ site.candidates, (e.store.method? id).isSome = true
  typeArgs : site.typeArgs = []
  args : ∃ cs, site.args = cs.map (fun c => .known (some c.toTy)) ∧ captureEach session cs = ts

variable {e : Engine} {rank : CallId → Run Ranked} {session session' : Session} {site : CallSite}
  {m : MethodId} {method : MethodDecl} {r : Request} {p : ParamId} {k : Nat} {ts : List ClassTy}
  {t : Ty}

/-- Where arguments resolve the only parameter of the formals, it is bound to their join, unless it
is erased with another parameter. -/
theorem bound_of_lower_bounds {σ : Substitution} (htakes : TakesOnly method p k) (hne : ts ≠ [])
    (hcount : method.variadic = false → ts.length ≤ k) (htypeArgs : site.typeArgs = [])
    (hp : p ∈ method.typeParams) (hmention : t.mentions p = false)
    (hjoin : e.store.lubAll (ts.map ClassTy.toTy) = some t)
    (hσ : (e.candidateSubstitution rank site method
      ((ts.map ClassTy.toTy).map fun t => { ty := some t })).run session = .ok (σ, session')) :
    σ.get? p = some (.bound t) ∨
      (∃ q ∈ method.typeParams, q ≠ p) ∧ σ.get? p = some .erased := by
  obtain ⟨vs, rfl, hlength, hdecided⟩ := exists_verdicts (List.ne_nil_of_mem hp) htypeArgs hσ
  refine conclude_bound e.store _ hlength hp hmention fun v hv => ?_
  rw [hdecided p v _ hv (TakesOnly.argumentVerdict_eq htakes rfl hne hcount), hjoin]
  rfl

/-- The answer for a parameter that the arguments bound from below accepts all of them, so that the
method applies to them, if the answer does not mention the parameter and the parameter is not erased
with another one. -/
theorem accepts_of_lower_bounds {bearing : Bearing} (htakes : TakesOnly r.method p k)
    (hcount : r.method.variadic = false → ts.length ≤ k) (hne : ts ≠ [])
    (hargs : r.args = (ts.map ClassTy.toTy).map fun t => { ty := some t })
    (hmerge : e.store.Mergeable (ts.map ClassTy.toTy))
    (hresolved : (e.judge rank r p).run session = .ok (.resolved ⟨t, bearing⟩, session')) :
    (∀ a ∈ ts, e.store.assignable t a.toTy = true) ∧
      ∀ (session : Session) (site : CallSite) (m : MethodId),
        IsCallWith e session site m r.method ts → p ∈ r.method.typeParams →
        t.mentions p = false → (if r.method.variadic then k ≤ ts.length else ts.length = k) →
          ∃ ranking, (e.rankSite site session).1 = .ok ranking ∧
            (∃ c ∈ ranking.candidates, c.method = m) ∧
            ∀ c ∈ ranking.candidates, c.method = m → c.phase ≠ .inapplicable ∨
              (∃ q ∈ r.method.typeParams, q ≠ p) ∧ c.substitution.get? p = some .erased := by
  have hjoin : e.store.lubAll (ts.map ClassTy.toTy) = some t := by
    have hv := eq_of_judge (htakes.argumentVerdict_eq hargs hne hcount) hresolved
    cases hjoin : e.store.lubAll (ts.map ClassTy.toTy) with
    | none =>
      rw [hjoin] at hv
      cases hv
    | some c =>
      rw [hjoin] at hv
      cases hv
      rfl
  have haccepts : ∀ a ∈ ts, e.store.assignable t a.toTy = true :=
    fun a ha => hmerge.assignable hjoin a.toTy (List.mem_map_of_mem ha)
  refine ⟨haccepts, fun session site m hcall hp hmention hfits => ?_⟩
  obtain ⟨cs, hcs, rfl⟩ := hcall.args
  obtain ⟨ranking, hranking, hall, hranked⟩ := exists_rankSite e site session hcs hcall.declared
  refine ⟨ranking, hranking, hall m hcall.candidate, fun c hc hcm => ?_⟩
  have hc := hranked c hc
  rw [hcm] at hc
  obtain ⟨_, _, hσ⟩ := hc.substituted r.method hcall.known
  rw [hc.phase r.method hcall.known]
  have hbound := bound_of_lower_bounds htakes hne hcount hcall.typeArgs hp hmention hjoin hσ
  exact hbound.imp_left fun hget => htakes.phaseOf_ne_inapplicable hget hfits haccepts

end Engine

/-! ### Lists joined -/

theorem Store.joinsWithinLimit_of_assignable {s : Store} {f g : ClassId} {args brgs : List Ty}
    {d : Nat} (hleft : Store.WithinLimit s (.cls f args) (.cls g brgs))
    (hright : Store.WithinLimit s (.cls g brgs) (.cls f args))
    (h : (s.assignable (.cls f args) (.cls g brgs) || s.assignable (.cls g brgs) (.cls f args)) =
      true) : Store.JoinsWithinLimit s (.cls f args) (.cls g brgs) d := by
  intro x y e hvisits x' y' hc
  cases hvisits with
  | here =>
    obtain rfl := Store.eq_of_box_cls hc.left
    obtain rfl := Store.eq_of_box_cls hc.right
    exact ⟨hleft, hright⟩
  | later hcall _ =>
    obtain ⟨_, _, hap⟩ := hcall.apart
    obtain rfl := Store.eq_of_box_cls hap.left
    obtain rfl := Store.eq_of_box_cls hap.right
    rw [hap.notAbove, hap.notBelow] at h
    cases h

namespace Engine

/-- The engine that knows lists and a method `of` that takes any number of `T`. -/
def listJoiner : Engine :=
  let (s, m) := Store.lists.declareMethod "of" .method none
  let (s, t) := s.declareParam "T" (.method m)
  { store := s.setSignature m [⟨"items", .array (.param t)⟩] (.cls 13 [.param t]) true }

/-- A call of `of` with an `ArrayList<Integer>`, a `List<? extends Number>` and a `List<Double>`. -/
def listsJoined : CallSite :=
  { id := 0, candidates := [18],
    args := [.known (some (.cls 16 [.raw 9])), .known (some (.cls 13 [Ty.extending (.raw 2)])),
      .known (some (.cls 13 [.raw 12]))] }

/-- Lists have one type argument, built-in classes none, and the first capture is of
`? extends Number`. -/
def listUsage : Store.Usage where
  arity c := if c = 13 ∨ c = 16 then some 1 else if c ≤ 12 then some 0 else none
  wildcard i := if i = 1 then some ⟨.upper, some (.raw 2)⟩ else none
  params _ := False

theorem listJoiner_regular : listJoiner.store.Regular := by
  have horderly : listJoiner.store.Orderly :=
    Store.orderly_of_exposed (by decide +kernel) (by decide +kernel) (by decide +kernel)
  exact ⟨horderly, Store.forall_bounds (by decide +kernel),
    Store.forall_supertypes (by decide +kernel)⟩

theorem listJoiner_uniform : listJoiner.store.Uniform listUsage := by
  refine { listJoiner_regular with
    root := rfl
    upper := fun p hp => absurd hp id
    bare := Store.forall_classes (by decide +kernel)
    passed := fun c d n hd harity => ?_
    agree := fun c t u _ => Store.agree_of_single (Store.forall_classes (by decide +kernel)) }
  have hlists : (c = 13 ∨ c = 16) ∧ n = 0 := by
    have harity : (if c = 13 ∨ c = 16 then some 1 else if c ≤ 12 then some 0 else none) =
      some (n + 1) := harity
    split at harity
    · rename_i hc
      exact ⟨hc, (Nat.succ.inj (Option.some.inj harity)).symm⟩
    · split at harity <;> cases harity
  obtain ⟨rfl | rfl, rfl⟩ := hlists
  · cases hd
    exact ⟨rfl, fun t ht => absurd ht List.not_mem_nil⟩
  · cases hd
    refine ⟨rfl, List.forall_mem_singleton.2 ⟨rfl, List.forall_mem_singleton.2 (.inl ⟨17, ?_, rfl⟩)⟩⟩
    exact List.mem_cons_self

def capturedLists : List ClassTy :=
  [⟨16, [.raw 9]⟩, ⟨13, [.captured 1 .upper (some (.raw 2))]⟩, ⟨13, [.raw 12]⟩]

/-- To join the first two lists, `Integer` is joined with the bound of the wildcard, which accepts
it. -/
theorem listJoiner_joinsWithinLimit : Store.JoinsWithinLimit listJoiner.store (.cls 16 [.raw 9])
    (.cls 13 [.captured 1 .upper (some (.raw 2))]) 0 := by
  intro x y e hvisits x' y' hc
  cases hvisits with
  | here =>
    obtain rfl := Store.eq_of_box_cls hc.left
    obtain rfl := Store.eq_of_box_cls hc.right
    exact ⟨Store.withinLimit_of_beyond (n := 4) (by decide +kernel),
      Store.withinLimit_of_beyond (n := 4) (by decide +kernel)⟩
  | later hcall hrest =>
    obtain ⟨c, hcommon, left, right, hp, p, hmem, rfl, rfl⟩ := Store.exists_pair_of_calls hcall
    have hlist : listJoiner.store.commonClasses (.cls 16 [.raw 9])
        (.cls 13 [.captured 1 .upper (some (.raw 2))]) = [13] := by
      decide +kernel
    rw [hlist, List.mem_singleton] at hcommon
    subst hcommon
    have hleft := hp.leftArgs
    have hright := hp.rightArgs
    cases hleft
    cases hright
    cases List.mem_singleton.1 hmem
    exact Store.joinsWithinLimit_of_assignable
      (Store.withinLimit_of_beyond (n := 4) (by decide +kernel))
      (Store.withinLimit_of_beyond (n := 4) (by decide +kernel)) (by decide +kernel) x y e hrest
      x' y' hc

theorem listJoiner_mergeable : listJoiner.store.Mergeable (capturedLists.map ClassTy.toTy) := by
  have hraw (c : ClassId) (hc : listUsage.arity c = some 0) :
      Store.Keeps listJoiner.store listUsage (.raw c) :=
    .cls hc fun t ht => absurd ht List.not_mem_nil
  have hkeeps : ∀ t ∈ capturedLists.map ClassTy.toTy,
      Store.Keeps listJoiner.store listUsage t := by
    refine List.forall_mem_map.2 (List.forall_mem_cons.2 ⟨?_, List.forall_mem_cons.2
      ⟨?_, List.forall_mem_singleton.2 ?_⟩⟩)
    · exact .cls rfl (List.forall_mem_singleton.2 (.ty (hraw 9 rfl)))
    · exact .cls rfl (List.forall_mem_singleton.2 (.ty (.captured rfl (hraw 2 rfl))))
    · exact .cls rfl (List.forall_mem_singleton.2 (.ty (hraw 12 rfl)))
  have hfirst : listJoiner.store.lub (.cls 16 [.raw 9])
      (.cls 13 [.captured 1 .upper (some (.raw 2))]) = some (.cls 13 [Ty.extending (.raw 2)]) := rfl
  have hjoin : listJoiner.store.lubAll (capturedLists.map ClassTy.toTy) =
      some (.cls 13 [Ty.extending (.raw 2)]) := rfl
  refine ⟨listJoiner_regular, fun t ht => (hkeeps t ht).regular,
    .inr ⟨listUsage, listJoiner_uniform, hkeeps⟩, fun t us hts => ?_, fun c hc => ?_⟩
  · cases hts
    refine ⟨listJoiner_joinsWithinLimit, fun v hv => ?_⟩
    cases hfirst.symm.trans hv
    exact ⟨Store.joinsWithinLimit_of_assignable
      (Store.withinLimit_of_beyond (n := 4) (by decide +kernel))
      (Store.withinLimit_of_beyond (n := 4) (by decide +kernel)) (by decide +kernel),
      fun _ _ => trivial⟩
  · cases hjoin.symm.trans hc
    have hbeyond : ∀ t ∈ capturedLists, listJoiner.store.assignableBeyond true 4
        (.cls 13 [Ty.extending (.raw 2)]) t.toTy =
          listJoiner.store.assignable (.cls 13 [Ty.extending (.raw 2)]) t.toTy := by
      decide +kernel
    exact List.forall_mem_map.2 fun t ht => Store.withinLimit_of_beyond (hbeyond t ht)

def joiner : MethodDecl := (listJoiner.store.method? 18).getD default

def listRequest : Request :=
  .ofMethod joiner ((capturedLists.map ClassTy.toTy).map fun t => { ty := some t }) .empty

theorem accepts_of_listsJoined :
    listJoiner.store.Mergeable (capturedLists.map ClassTy.toTy) ∧ TakesOnly joiner 19 0 ∧
    IsCallWith listJoiner {} listsJoined 18 joiner capturedLists ∧
    ∃ t, (listJoiner.judge (listJoiner.rankWithin 1) listRequest 19).run {} =
        .ok (.resolved ⟨t, .exactly⟩, {}) ∧ t.mentions 19 = false ∧
      (∀ a ∈ capturedLists, listJoiner.store.assignable t a.toTy = true) ∧
      ∃ ranking, (listJoiner.rankSite listsJoined {}).1 = .ok ranking ∧
        (∃ c ∈ ranking.candidates, c.method = 18) ∧
        ∀ c ∈ ranking.candidates, c.method = 18 → c.phase ≠ .inapplicable ∨
          (∃ q ∈ joiner.typeParams, q ≠ 19) ∧ c.substitution.get? 19 = some .erased := by
  have htakes : TakesOnly joiner 19 0 := ⟨rfl⟩
  have hresolved : (listJoiner.judge (listJoiner.rankWithin 1) listRequest 19).run {} =
      .ok (.resolved ⟨.cls 13 [Ty.extending (.raw 2)], .exactly⟩, {}) := rfl
  have hcall : IsCallWith listJoiner {} listsJoined 18 joiner capturedLists :=
    ⟨rfl, List.mem_singleton_self 18, by decide, rfl,
      [⟨16, [.raw 9]⟩, ⟨13, [Ty.extending (.raw 2)]⟩, ⟨13, [.raw 12]⟩], rfl, rfl⟩
  obtain ⟨haccepts, hcalls⟩ := accepts_of_lower_bounds (r := listRequest) htakes
    (fun h => by cases h) (List.cons_ne_nil _ _) rfl listJoiner_mergeable hresolved
  exact ⟨listJoiner_mergeable, htakes, hcall, _, hresolved, rfl, haccepts,
    hcalls {} listsJoined 18 hcall List.mem_cons_self rfl (Nat.zero_le _)⟩

/-! ### Types that are not used uniformly -/

/-- An engine with lists, `Box<B>`, `D<X>`, a class `C<Y>` that extends `D<Box<Y>>`, interfaces
`I<X>` and `J<X>` that extend `List<X>` and `List<Integer>`, a class `Both<X>` that implements
these, a method `of` that takes any number of `T`, and a method `first` that takes one `T`, where
`T` extends `Number` and there is another parameter `U`. -/
def mixed : Engine :=
  let (s, box) := Store.lists.declareClass "Box" .concrete
  let (s, _) := s.declareParam "B" (.cls box)
  let (s, d) := s.declareClass "D" .interface
  let (s, _) := s.declareParam "X" (.cls d)
  let (s, c) := s.declareClass "C" .concrete
  let (s, y) := s.declareParam "Y" (.cls c)
  let s := s.addSupertype c ⟨d, [.cls box [.param y]]⟩
  let (s, i) := s.declareClass "I" .interface
  let (s, x) := s.declareParam "X" (.cls i)
  let s := s.addSupertype i ⟨13, [.param x]⟩
  let (s, j) := s.declareClass "J" .interface
  let (s, _) := s.declareParam "X" (.cls j)
  let s := s.addSupertype j ⟨13, [.raw 9]⟩
  let (s, both) := s.declareClass "Both" .concrete
  let (s, x) := s.declareParam "X" (.cls both)
  let s := (s.addSupertype both ⟨i, [.param x]⟩).addSupertype both ⟨j, [.param x]⟩
  let (s, of) := s.declareMethod "of" .method none
  let (s, t) := s.declareParam "T" (.method of)
  let s := s.setSignature of [⟨"items", .array (.param t)⟩] (.cls 13 [.param t]) true
  let (s, first) := s.declareMethod "first" .method none
  let (s, t) := s.declareParam "T" (.method first)
  let (s, _) := s.declareParam "U" (.method first)
  let s := s.setBounds t [.raw 2]
  { store := s.setSignature first [⟨"item", .param t⟩] (.param t) false }

def mixedOf : MethodDecl := (mixed.store.method? 30).getD default

def mixedFirst : MethodDecl := (mixed.store.method? 32).getD default

/-- An intersection of one component in an intersection of one, so many times. -/
def nest : Nat → Ty
  | 0 => .raw 9
  | n + 1 => .inter [nest n]

/-- Arguments whose join does not accept all of them, each time for one reason: a raw type, a class
without parameters that is a `List<String>`, a supertype with an argument around a parameter, a
class that is a list in two ways, captures of one id with two bounds, and a check deeper than the
limit. -/
def mixedArguments : List (List ClassTy) :=
  [[⟨16, []⟩, ⟨24, [.raw 9]⟩, ⟨13, [.raw 4]⟩],
    [⟨15, []⟩, ⟨16, [.raw 9]⟩, ⟨13, [.raw 4]⟩],
    [⟨22, [.raw 9]⟩, ⟨22, [.raw 12]⟩, ⟨20, [.cls 18 [Ty.extending (.raw 2)]]⟩],
    [⟨28, [.raw 4]⟩, ⟨26, [.raw 4]⟩, ⟨13, [.raw 9]⟩],
    [⟨16, [.captured 9 .upper (some (.raw 9))]⟩, ⟨13, [.captured 9 .upper (some (.raw 4))]⟩,
      ⟨13, [Ty.extending (.raw 4)]⟩],
    [⟨13, [nest 512]⟩, ⟨13, [Ty.extending (.raw 2)]⟩]]

/-- Arguments whose join does not accept all of them, each time for one kind of type argument or
bound: a primitive type, a wildcard around a primitive type, around a wildcard, around an
intersection of wildcards or of the root class alone, and around what is not known. -/
def oddlyBounded : List (List ClassTy) :=
  let lists := [⟨16, [Ty.above (.raw 4)]⟩, ⟨16, [Ty.extending (.raw 1)]⟩]
  [[⟨16, [.prim .int]⟩, ⟨16, [Ty.above (.raw 7)]⟩, ⟨13, [Ty.above (.inter [.raw 7])]⟩],
    [⟨16, [Ty.extending (.prim .int)]⟩, ⟨16, [Ty.extending (.prim .long)]⟩,
      ⟨13, [Ty.extending (.raw 10)]⟩],
    lists ++ [⟨13, [Ty.extending Ty.anything]⟩],
    lists ++ [⟨13, [Ty.extending (.inter [Ty.anything])]⟩],
    lists ++ [⟨13, [Ty.extending (.inter [.raw 1, .raw 1])]⟩],
    [⟨16, [Ty.extending .unknown]⟩, ⟨13, [Ty.extending .unknown]⟩]]

/-- Calls whose only candidate does not apply: of `of` with mixed arguments and with a `List<T>`,
and of `first` with two arguments and with one that is no number. -/
def rejectedCalls : List CallSite :=
  (mixedArguments.map fun ts =>
    { id := 0, candidates := [30], args := ts.map fun c => .known (some c.toTy) }) ++
  [{ id := 0, candidates := [30], args := [.known (some (.cls 13 [.param 31]))] },
    { id := 0, candidates := [32], args := [.known (some (.raw 9)), .known (some (.raw 4))] },
    { id := 0, candidates := [32], args := [.known (some (.raw 4))] }]

theorem not_accepted_of_mixed :
    mixed.store.Orderly ∧
    (mixed.store.method? 30 = some mixedOf ∧ TakesOnly mixedOf 31 0) ∧
    (mixed.store.method? 32 = some mixedFirst ∧ TakesOnly mixedFirst 33 1) ∧
    (∀ ts ∈ mixedArguments ++ oddlyBounded, ∃ t,
      (mixed.judge (mixed.rankWithin 1) (.ofMethod mixedOf
        ((ts.map ClassTy.toTy).map fun t => { ty := some t }) .empty) 31).run {} =
          .ok (.resolved ⟨t, .exactly⟩, {}) ∧
      ∃ a ∈ ts, mixed.store.assignable t a.toTy = false) ∧
    ∀ site ∈ rejectedCalls, ((mixed.rankSite site {}).1.toOption.map fun r =>
      r.candidates.map Candidate.phase) = some [.inapplicable] := by
  have horderly : mixed.store.Orderly :=
    Store.orderly_of_exposed (by decide +kernel) (by decide +kernel) (by decide +kernel)
  have htakes : TakesOnly mixedOf 31 0 := ⟨rfl⟩
  have hjoins : ∀ ts ∈ mixedArguments ++ oddlyBounded, ts.isEmpty = false ∧
      (mixed.store.lubAll (ts.map ClassTy.toTy)).any (fun t =>
        ts.any fun a => !mixed.store.assignable t a.toTy) = true := by
    decide +kernel
  refine ⟨horderly, ⟨rfl, htakes⟩, ⟨rfl, ⟨rfl⟩⟩, fun ts hts => ?_, by decide +kernel⟩
  obtain ⟨hne, hrejects⟩ := hjoins ts hts
  obtain ⟨t, ht, hrejects⟩ := (Option.any_eq_true _ _).1 hrejects
  obtain ⟨a, ha, hrejects⟩ := List.any_eq_true.1 hrejects
  refine ⟨t, run_judge_of_decided fun blocked => ?_, a, ha, by simpa using hrejects⟩
  rw [TakesOnly.argumentVerdict_eq htakes rfl (List.isEmpty_eq_false_iff.1 hne)
    (fun h => by cases h), ht]
  rfl

end Engine

end GenericCalls
