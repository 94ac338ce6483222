import GenericCalls.Proofs.Assignable.Captured
import GenericCalls.Proofs.Match.Parameters
import GenericCalls.Proofs.Ranking.Runs
import GenericCalls.Proofs.Store.Regular
import GenericCalls.Proofs.Store.Views

/-! # Linear signatures

A signature is linear if its formals are classes applied to the type parameters of the method, each
of which stands in one place only. Each parameter then gets its answer from one type argument of one
argument: what the argument has there at the class of the formal, reopened if it is captured. Under
the answers the formal holds the argument, so a method with a linear signature applies to all
arguments that reach the classes of its formals. -/

namespace GenericCalls

/-! ### Views without wildcards -/

namespace Store

variable {s : Store}

/-- No type argument of a declared supertype is itself a wildcard. -/
def PlainSupers (s : Store) : Prop :=
  ∀ c d, s.class? c = some d → ∀ t ∈ d.supertypes, ∀ u ∈ t.args, u.isWild = false

theorem PlainSupers.isWild_of_mem (hs : s.PlainSupers) {c : ClassTy} {d : ClassId}
    {lifted : List Ty} (hc : ∀ t ∈ c.args, t.isWild = false)
    (h : s.ancestorArgs c d = some lifted) : ∀ t ∈ lifted, t.isWild = false := by
  have hsupers : ∀ c : ClassTy, (∀ t ∈ c.args, t.isWild = false) → ∀ t ∈ s.directSupertypes c,
      ∀ u ∈ t.args, u.isWild = false := by
    intro c hc t ht
    cases hd : s.class? c.id with
    | none =>
      simp only [directSupertypes, hd] at ht
      cases ht
    | some d =>
      rw [directSupertypes_eq hd] at ht
      obtain ⟨t, htd, rfl⟩ := List.mem_map.1 ht
      by_cases hbare : c.args = [] ∨ c.args.length ≠ d.params.length
      · rw [superWith_of_bare t hbare]
        exact fun u hu => absurd hu List.not_mem_nil
      · rw [not_or, Classical.not_not] at hbare
        obtain ⟨us, hus, _, hsuper⟩ := superWith_of_args t hbare.1 hbare.2
        rw [hsuper]
        intro u hu
        obtain ⟨v, hv, happly⟩ :=
          exists_mem_of_forall₂ (Substitution.applyAll_eq_some_iff.1 hus).flip hu
        refine Substitution.isWild_of_apply (fun p t hp => ?_) happly (hs _ d hd t htd v hv)
        obtain ⟨_, t', ht', heq⟩ := Substitution.get?_ofArgs hp
        cases heq
        exact hc t ht'
  rcases ancestorArgs_invariant hsupers hc h with ⟨_, rfl⟩ | hlifted
  · exact fun u hu => absurd hu List.not_mem_nil
  · exact hlifted

end Store

/-! ### Patterns -/

/-- A class applied to type parameters. -/
structure Pattern where
  cls : ClassId
  params : List ParamId

def Pattern.ty (x : Pattern) : Ty := .cls x.cls (x.params.map .param)

/-- The formals of a method are classes applied to its type parameters, each of which stands in one
place, and the method takes as many arguments as it has formals. -/
structure Linear (method : MethodDecl) (xs : List Pattern) : Prop where
  formals : method.formals.map Formal.ty = xs.map Pattern.ty
  own : ∀ x ∈ xs, ∀ p ∈ x.params, p ∈ method.typeParams
  once : ∀ p ∈ method.typeParams, (xs.flatMap Pattern.params).count p = 1
  fixed : method.variadic = false

/-- A type is seen at the class of a pattern with these type arguments. -/
def SeenAs (s : Store) (x : Pattern) (t : Ty) (lifted : List Ty) : Prop :=
  ∃ c args, t = .cls c args ∧ s.ancestorArgs ⟨c, args⟩ x.cls = some lifted

variable {s : Store} {x : Pattern} {t : Ty} {lifted : List Ty} {p : ParamId}

theorem SeenAs.constrain (h : SeenAs s x t lifted) (p : ParamId) :
    s.constrain p .intoFormal x.ty t =
      s.matchTypes p (.cls x.cls (x.params.map .param)) (.cls x.cls lifted) .atLeast 0 := by
  obtain ⟨c, args, rfl, hview⟩ := h
  have hlift : s.liftWithin x.cls Limits.liftSteps (.cls c args) = some ⟨x.cls, lifted⟩ := by
    unfold Limits.liftSteps Store.liftWithin
    rw [hview]
    rfl
  unfold Pattern.ty Store.constrain
  simp only [Store.box?, Store.constrainClass, hlift]
  rfl

theorem SeenAs.constrain_of_not_mem (h : SeenAs s x t lifted) (hp : p ∉ x.params) :
    s.constrain p .intoFormal x.ty t = .noInfo := by
  rw [h.constrain, Store.matchTypes_params_of_not_mem hp]

/-- A type argument that answers for a parameter: it is neither `null` nor unknown, it is no
wildcard around what is unknown, captured or not, and it has none of the parameters `ps` in it. -/
structure Ty.Answer (ps : List ParamId) (t : Ty) : Prop where
  notNull : t ≠ .null
  known : t ≠ .unknown
  knownBound : ∀ k, t.reopen ≠ .wild k (some .unknown)
  foreign : ∀ p ∈ ps, t.mentions p = false

theorem Ty.Answer.informative {ps : List ParamId} (h : t.Answer ps) :
    (t.isNull || t.isUnknown) = false := by
  cases t with
  | null => exact absurd rfl h.notNull
  | unknown => exact absurd rfl h.known
  | _ => rfl

theorem Ty.mentions_reopen (t : Ty) (p : ParamId) : t.reopen.mentions p = t.mentions p := by
  cases t with
  | captured i k b => cases b <;> simp only [reopen, mentions]
  | _ => rfl

theorem SeenAs.constrain_of_mem {ps : List ParamId} (h : SeenAs s x t lifted)
    (hlength : x.params.length = lifted.length) (honce : x.params.count p = 1) {u : Ty}
    (hmem : (p, u) ∈ x.params.zip lifted) (hu : u.Answer ps) (hwild : u.isWild = false) :
    s.constrain p .intoFormal x.ty t = .found ⟨u.reopen, .exactly⟩ := by
  have hstated : ∀ k, u ≠ .wild k none := by
    rintro k rfl
    cases hwild
  rw [h.constrain, Store.matchTypes_params hlength honce hmem hstated hu.informative]

/-! ### Evidence -/

namespace Evidence

theorem add_noInfo (s : Store) (e : Evidence) : e.add s .noInfo = .ok e := by
  unfold add
  split <;> rfl

theorem addAll_noInfo (s : Store) (e : Evidence) {rs : List MatchResult}
    (h : ∀ r ∈ rs, r = .noInfo) : e.addAll s rs = .ok e := by
  unfold addAll
  induction rs with
  | nil => rfl
  | cons r rs ih =>
    obtain ⟨hr, hrs⟩ := List.forall_mem_cons.1 h
    rw [List.foldlM_cons, hr, add_noInfo]
    exact ih hrs

theorem addAll_single (s : Store) {pre post : List MatchResult} (r : MatchResult)
    (hpre : ∀ r ∈ pre, r = .noInfo) (hpost : ∀ r ∈ post, r = .noInfo) :
    ({} : Evidence).addAll s (pre ++ r :: post) = ({} : Evidence).add s r := by
  induction pre with
  | nil =>
    unfold addAll
    rw [List.nil_append, List.foldlM_cons]
    cases hr : ({} : Evidence).add s r with
    | error v => rfl
    | ok e => exact addAll_noInfo s e hpost
  | cons r' pre ih =>
    obtain ⟨hr', hpre⟩ := List.forall_mem_cons.1 hpre
    rw [← ih hpre]
    unfold addAll
    rw [List.cons_append, List.foldlM_cons, hr', add_noInfo]
    rfl

theorem decide?_exactly (s : Store) (t : Ty) :
    ∃ e, ({} : Evidence).add s (.found ⟨t, .exactly⟩) = .ok e ∧
      e.decide? s = .decided (.resolved ⟨t, .exactly⟩) := by
  have hadd : ({} : Evidence).add s (.found ⟨t, .exactly⟩) =
      if t.isWild then .ok { captured := some t } else .ok { exact := some t } := rfl
  rw [hadd]
  split
  · exact ⟨{ captured := some t }, rfl, rfl⟩
  · exact ⟨{ exact := some t }, rfl, rfl⟩

end Evidence

theorem exists_split_of_count {xs : List Pattern} {ts : List Ty} (hlength : xs.length = ts.length)
    (honce : (xs.flatMap Pattern.params).count p = 1) (hmem : (x, t) ∈ xs.zip ts)
    (hp : p ∈ x.params) :
    x.params.count p = 1 ∧ ∃ pre post, xs.zip ts = pre ++ (x, t) :: post ∧
      (∀ e ∈ pre, p ∉ e.1.params) ∧ ∀ e ∈ post, p ∉ e.1.params := by
  induction xs generalizing ts with
  | nil => cases hmem
  | cons y xs ih =>
    cases ts with
    | nil => cases hmem
    | cons u ts =>
      rw [List.flatMap_cons, List.count_append] at honce
      have habsent (h : (xs.flatMap Pattern.params).count p = 0) : ∀ e ∈ xs.zip ts,
          p ∉ e.1.params := by
        intro e he hpe
        rw [List.count_eq_zero] at h
        exact h (List.mem_flatMap.2 ⟨e.1, (List.of_mem_zip he).1, hpe⟩)
      rw [List.zip_cons_cons, List.mem_cons] at hmem
      by_cases hy : p ∈ y.params
      · -- The parameter stands here, and not in the rest.
        have hpos := List.count_pos_iff.2 hy
        have hrest := habsent (by omega)
        rcases hmem with heq | hmem
        · cases heq
          exact ⟨by omega, [], xs.zip ts, rfl, nofun, hrest⟩
        · exact absurd hp (hrest _ hmem)
      · rw [List.count_eq_zero.2 hy, Nat.zero_add] at honce
        have hmem := hmem.resolve_left fun heq => by
          cases heq
          exact hy hp
        obtain ⟨hcount, pre, post, hsplit, hpre, hpost⟩ :=
          ih (Nat.succ.inj hlength) honce hmem
        exact ⟨hcount, (y, u) :: pre, post, by rw [List.zip_cons_cons, hsplit, List.cons_append],
          List.forall_mem_cons.2 ⟨hy, hpre⟩, hpost⟩

/-- With arguments that are no calls, and as many as formals at most, each argument is matched
against the formal in its place. -/
theorem Request.slots_fixed (r : Request) (hfixed : r.method.variadic = false) {ts : List Ty}
    (hargs : r.args = ts.map fun t => { ty := some t }) (blocked : CallId → Bool) :
    r.slots blocked = (r.method.formals.map Formal.ty).zip ts := by
  have hslot (i : Nat) (t : Ty) : r.slot? i t = r.method.formals[i]?.map fun f => (f.ty, t) := by
    have hformal : r.method.formalAt? i = r.method.formals[i]? := by
      unfold MethodDecl.formalAt?
      rw [hfixed]
      split
      · rename_i f hf
        exact hf.symm
      · rename_i hnone
        exact hnone.symm
    have hvariadic : r.method.isVariadicAt i = false := by
      unfold MethodDecl.isVariadicAt
      rw [hfixed]
      rfl
    unfold slot?
    rw [hformal, hvariadic]
    rfl
  have hfrom (ts : List Ty) (k : Nat) :
      (ts.zipIdx k).filterMap (fun e => r.slot? e.2 e.1) =
        ((r.method.formals.drop k).map Formal.ty).zip ts := by
    induction ts generalizing k with
    | nil => rw [List.zip_nil_right]; rfl
    | cons t ts ih =>
      rw [List.zipIdx_cons, List.filterMap_cons, ih, hslot]
      cases hk : r.method.formals[k]? with
      | none =>
        have hle := List.getElem?_eq_none_iff.1 hk
        rw [List.drop_eq_nil_of_le hle, List.drop_eq_nil_of_le (Nat.le_succ_of_le hle)]
        rfl
      | some f =>
        obtain ⟨hlt, hf⟩ := List.getElem?_eq_some_iff.1 hk
        rw [List.drop_eq_getElem_cons hlt, hf]
        rfl
  rw [Engine.slots_of_typed r hargs]
  exact hfrom ts 0

/-- What the arguments say about a parameter is what the type argument says that stands in its
place. -/
theorem Linear.argumentVerdict {r : Request} {xs : List Pattern} {ts : List Ty} {u : Ty}
    (hr : Linear r.method xs) (hlength : xs.length = ts.length)
    (hargs : r.args = ts.map fun t => { ty := some t })
    (hseen : ∀ e ∈ xs.zip ts, ∃ lifted, SeenAs s e.1 e.2 lifted) (hmem : (x, t) ∈ xs.zip ts)
    (hview : SeenAs s x t lifted) (harity : x.params.length = lifted.length)
    (hplace : (p, u) ∈ x.params.zip lifted) (hu : u.Answer r.method.typeParams)
    (hwild : u.isWild = false) (blocked : CallId → Bool) :
    r.argumentVerdict s blocked p = .decided (.resolved ⟨u.reopen, .exactly⟩) := by
  have hp := (List.of_mem_zip hplace).1
  have hown := hr.own x (List.of_mem_zip hmem).1 p hp
  obtain ⟨honce, pre, post, hsplit, hpre, hpost⟩ :=
    exists_split_of_count hlength (hr.once p hown) hmem hp
  have hslots : r.slots blocked = (xs.zip ts).map fun e => (e.1.ty, e.2) := by
    rw [r.slots_fixed hr.fixed hargs, hr.formals, List.zip_map_left]
    rfl
  have hnoInfo (l : List (Pattern × Ty)) (hl : ∀ e ∈ l, e ∈ xs.zip ts)
      (hparams : ∀ e ∈ l, p ∉ e.1.params) :
      ∀ m ∈ l.map (fun e => s.constrain p .intoFormal e.1.ty e.2), m = .noInfo := by
    intro m hm
    obtain ⟨e, he, rfl⟩ := List.mem_map.1 hm
    obtain ⟨lifted, hseen⟩ := hseen e (hl e he)
    exact hseen.constrain_of_not_mem (hparams e he)
  have hresults : r.results s blocked p =
      pre.map (fun e => s.constrain p .intoFormal e.1.ty e.2) ++ .found ⟨u.reopen, .exactly⟩ ::
        post.map (fun e => s.constrain p .intoFormal e.1.ty e.2) := by
    unfold Request.results
    rw [hslots, hsplit, List.map_map, List.map_append, List.map_cons]
    congr 2
    exact hview.constrain_of_mem harity honce hplace hu hwild
  obtain ⟨e, hadd, hdecide⟩ := Evidence.decide?_exactly s u.reopen
  have hleft := hnoInfo pre (fun e he => hsplit ▸ List.mem_append_left _ he) hpre
  have hright := hnoInfo post
    (fun e he => hsplit ▸ List.mem_append_right _ (List.mem_cons_of_mem _ he)) hpost
  unfold Request.argumentVerdict
  rw [hresults, Evidence.addAll_single s _ hleft hright, hadd]
  exact hdecide

/-! ### Arguments that suit a pattern -/

/-- A class type reaches the class of a pattern, and is seen there, when its wildcards are captured,
with type arguments that answer for the parameters `ps`. -/
structure Suits (s : Store) (ps : List ParamId) (x : Pattern) (c : ClassTy) : Prop where
  inherits : x.cls = c.id ∨ x.cls = s.root ∨ Store.Ancestor s c.id x.cls
  answers : ∀ (session : Session) lifted,
    s.ancestorArgs ⟨c.id, (session.captureArgs c.args).1⟩ x.cls = some lifted →
      ∀ t ∈ lifted, t.Answer ps

/-- A type is seen at the class of a pattern with type arguments that answer for the parameters
`ps`, none of which is a wildcard. -/
def SeenWith (s : Store) (ps : List ParamId) (x : Pattern) (t : Ty) : Prop :=
  ∃ lifted, SeenAs s x t lifted ∧ ∀ u ∈ lifted, u.Answer ps ∧ u.isWild = false

theorem Suits.seen {ps : List ParamId} {c : ClassTy} (h : Suits s ps x c)
    (hplain : s.PlainSupers) (hfew : ∀ c, Store.FewAncestors s c) (session : Session) :
    SeenWith s ps x (.cls c.id (session.captureArgs c.args).1) := by
  have hcaptured : ∀ t ∈ (session.captureArgs c.args).1, t.isWild = false := by
    intro t ht
    obtain ⟨u, _, hu⟩ :=
      exists_mem_of_forall₂ (session.captureArgs_captures c.args).flip ht
    exact Ty.Captures.isWild hu
  have hsome : (s.ancestorArgs ⟨c.id, (session.captureArgs c.args).1⟩ x.cls).isSome = true := by
    rcases h.inherits with hid | hroot | hanc
    · rw [hid]
      exact Option.isSome_of_eq_some (s.ancestorArgs_self ⟨c.id, _⟩)
    · unfold Store.ancestorArgs
      split
      · rfl
      · rfl
    · exact Store.ancestorArgs_isSome (hfew _) hanc
  obtain ⟨lifted, hlifted⟩ := Option.isSome_iff_exists.1 hsome
  exact ⟨lifted, ⟨c.id, _, rfl, hlifted⟩, fun u hu =>
    ⟨h.answers session lifted hlifted u hu, hplain.isWild_of_mem hcaptured hlifted u hu⟩⟩

theorem forall₂_seen_of_suits {ps : List ParamId} {xs : List Pattern} {cs : List ClassTy}
    (hplain : s.PlainSupers) (hfew : ∀ c, Store.FewAncestors s c)
    (hsuits : List.Forall₂ (Suits s ps) xs cs) (session : Session) :
    List.Forall₂ (SeenWith s ps) xs ((Engine.captureEach session cs).map ClassTy.toTy) := by
  induction hsuits generalizing session with
  | nil => exact .nil
  | cons hsuit _ ih => exact .cons (hsuit.seen hplain hfew session) (ih _)

/-! ### Ranking -/

/-- A pattern accepts what it is matched against, once its parameters stand for the answers. -/
theorem SeenAs.subtype {ps : List ParamId} {σ : Substitution} (h : SeenAs s x t lifted)
    (hanswers : ∀ u ∈ lifted, u.Answer ps ∧ u.isWild = false)
    (hgives : x.params.length = lifted.length → ∀ p u, (p, u) ∈ x.params.zip lifted →
      σ.Gives p u.reopen) :
    s.subtype (Engine.instantiate s σ x.ty) t = true := by
  obtain ⟨c, args, rfl, hview⟩ := h
  obtain ⟨fill, hfill, hvalues⟩ := Substitution.substitute_params σ x.cls x.params
  have hinstance : Engine.instantiate s σ x.ty = .cls x.cls fill := by
    unfold Engine.instantiate Pattern.ty
    rw [hfill]
    rfl
  rw [hinstance]
  rcases hvalues with rfl | ⟨rfl, hbound⟩
  · exact Store.assignableWithin_of_raw _ hview (.inl rfl)
  · by_cases hlength : x.params.length = lifted.length
    · refine Store.assignableWithin_of_fallsUnder _ hview fun e he => ?_
      rw [List.zip_map_left] at he
      obtain ⟨⟨p, u⟩, hmem, rfl⟩ := List.mem_map.1 he
      obtain ⟨hp, hu⟩ := List.of_mem_zip hmem
      have hvalue : σ.valueOf p = u.reopen := by
        rcases hgives hlength p u hmem with herased | hget
        · exact absurd herased (hbound p hp)
        · exact Substitution.valueOf_of_get? hget
      dsimp only [Prod.map, id]
      rw [hvalue]
      exact Store.fallsUnder_of_captures (Ty.captures_of_reopen (hanswers u hu).2)
        (hanswers u hu).1.knownBound
    · refine Store.assignableWithin_of_raw _ hview (.inr (.inr ?_))
      rwa [List.length_map]

namespace Engine
open Run

variable {e : Engine} {rank : CallId → Run Ranked} {site : CallSite} {method : MethodDecl}
  {xs : List Pattern} {ts : List Ty} {session session' : Session}

/-- The substitution of a candidate with a linear signature gives every parameter the type argument
in its place. -/
theorem gives_of_linear {σ : Substitution} (hlinear : Linear method xs)
    (hseen : List.Forall₂ (SeenWith e.store method.typeParams) xs ts)
    (htypeArgs : site.typeArgs = [])
    (hσ : (e.candidateSubstitution rank site method (ts.map fun t => { ty := some t })).run session =
      .ok (σ, session')) (hmem : (x, t) ∈ xs.zip ts) (hview : SeenAs e.store x t lifted)
    (hanswers : ∀ u ∈ lifted, u.Answer method.typeParams ∧ u.isWild = false)
    (harity : x.params.length = lifted.length) {u : Ty} (hplace : (p, u) ∈ x.params.zip lifted) :
    σ.Gives p u.reopen := by
  obtain ⟨hpx, hu⟩ := List.of_mem_zip hplace
  have hp := hlinear.own x (List.of_mem_zip hmem).1 p hpx
  obtain ⟨hanswer, hwild⟩ := hanswers u hu
  have hgeneric : method.typeParams ≠ [] := List.ne_nil_of_mem hp
  obtain ⟨vs, rfl, hlength, hdecided⟩ := exists_verdicts hgeneric htypeArgs hσ
  let r := Request.ofMethod method (ts.map fun t => { ty := some t }) site.given (some site.id)
  have hverdict := fun blocked => Linear.argumentVerdict (r := r) (s := e.store) hlinear
    hseen.length_eq rfl (fun e he => by
      obtain ⟨lifted, hlifted, _⟩ := (List.forall₂_iff_zip.1 hseen).2 he
      exact ⟨lifted, hlifted⟩) hmem hview harity hplace hanswer hwild blocked
  refine conclude_gives e.store r hlength hp ?_ fun v hv => ?_
  · rw [Ty.mentions_reopen]
    exact hanswer.foreign p hp
  · rw [hdecided p v _ hv hverdict]
    rfl

theorem phaseOf_exact_of_linear {s : Store} {σ : Substitution} (hlinear : Linear method xs)
    (hlength : xs.length = ts.length)
    (hfits : ∀ x t, (x, t) ∈ xs.zip ts → s.subtype (instantiate s σ x.ty) t = true) :
    phaseOf s method σ (ts.map fun t => { ty := some t }) = .exact := by
  have hformals : (method.formals.map fun f => instantiate s σ f.ty) =
      xs.map fun x => instantiate s σ x.ty := by
    have hmap := congrArg (List.map (instantiate s σ)) hlinear.formals
    rwa [List.map_map, List.map_map] at hmap
  unfold phaseOf
  rw [hformals, if_pos]
  refine ⟨by rw [List.length_map, List.length_map, hlength], ?_⟩
  unfold fitAll
  rw [List.zip_map, List.all_map, List.all_eq_true]
  rintro ⟨x, t⟩ hmem
  have hsubtype := hfits x t hmem
  cases t <;> first | rfl | exact hsubtype

/-- A method with a linear signature applies exactly to class types that reach the classes of its
formals, in every context and session, whatever the options and the bindings known beforehand. -/
theorem rankSite_exact_of_linear (e : Engine) (session : Session) {site : CallSite} {m : MethodId}
    {method : MethodDecl} {xs : List Pattern} {cs : List ClassTy}
    (hplain : e.store.PlainSupers) (hfew : ∀ c, Store.FewAncestors e.store c)
    (hm : e.store.method? m = some method) (hlinear : Linear method xs)
    (hcandidate : m ∈ site.candidates)
    (hdeclared : ∀ id ∈ site.candidates, (e.store.method? id).isSome = true)
    (htypeArgs : site.typeArgs = []) (hargs : site.args = cs.map fun c => .known (some c.toTy))
    (hsuits : List.Forall₂ (Suits e.store method.typeParams) xs cs) :
    ∃ r, (e.rankSite site session).1 = .ok r ∧ (∃ c ∈ r.candidates, c.method = m) ∧
      ∀ c ∈ r.candidates, c.method = m → c.phase = .exact := by
  obtain ⟨r, hr, hall, hranked⟩ := exists_rankSite e site session hargs hdeclared
  have hseen := forall₂_seen_of_suits hplain hfew hsuits session
  refine ⟨r, hr, hall m hcandidate, fun c hc hcm => ?_⟩
  have hc := hranked c hc
  rw [hcm] at hc
  obtain ⟨_, _, hσ⟩ := hc.substituted method hm
  rw [hc.phase method hm]
  refine phaseOf_exact_of_linear hlinear hseen.length_eq fun x t hmem => ?_
  obtain ⟨lifted, hview, hanswers⟩ := (List.forall₂_iff_zip.1 hseen).2 hmem
  exact hview.subtype hanswers fun harity p u hplace =>
    gives_of_linear hlinear hseen htypeArgs hσ hmem hview hanswers harity hplace

def listTaker : Engine :=
  let (s, m) := Store.lists.declareMethod "first" .method none
  let (s, t) := s.declareParam "T" (.method m)
  { store := s.setSignature m [⟨"list", .cls 13 [.param t]⟩] (.param t) false }

def listTaken : CallSite :=
  { id := 0, candidates := [18], args := [.known (some (.cls 16 [Ty.extending (.raw 2)]))] }

theorem rankSite_exact_of_listTaken :
    listTaker.store.PlainSupers ∧ (∀ c, Store.FewAncestors listTaker.store c) ∧
    ∃ r, (listTaker.rankSite listTaken {}).1 = .ok r ∧ (∃ c ∈ r.candidates, c.method = 18) ∧
      ∀ c ∈ r.candidates, c.method = 18 → c.phase = .exact := by
  have hplain : listTaker.store.PlainSupers := Store.forall_supertypes (by decide +kernel)
  have hfew : ∀ c, Store.FewAncestors listTaker.store c :=
    Store.fewAncestors_of_length (by decide +kernel)
  have hsuits : Suits listTaker.store [19] ⟨13, [19]⟩ ⟨16, [Ty.extending (.raw 2)]⟩ := by
    refine ⟨.inr (.inr (.single (by decide +kernel))), fun session lifted hlifted t ht => ?_⟩
    have hview (i : CaptureId) : listTaker.store.ancestorArgs
        ⟨16, [.captured i .upper (some (.raw 2))]⟩ 13 =
          some [.captured i .upper (some (.raw 2))] := rfl
    cases (hview (session.captures + 1)).symm.trans hlifted
    rw [List.mem_singleton.1 ht]
    exact ⟨nofun, nofun, nofun, fun p _ => rfl⟩
  have hargs : listTaken.args = [(⟨16, [Ty.extending (.raw 2)]⟩ : ClassTy)].map fun c =>
      .known (some c.toTy) := rfl
  refine ⟨hplain, hfew, rankSite_exact_of_linear listTaker {} hplain hfew rfl ?_ (by decide)
    (by decide) rfl hargs (.cons hsuits .nil)⟩
  exact ⟨rfl, by decide, by decide, rfl⟩

/-- An engine with `List<E>`, `Box<B>`, a class `Foo<F>` that extends `List<Box<? extends F>>`, and
a method that takes a `List<M>`. -/
def boxLists : Engine :=
  let (s, list) := Store.standard.declareClass "List" .interface
  let (s, _) := s.declareParam "E" (.cls list)
  let (s, box) := s.declareClass "Box" .concrete
  let (s, _) := s.declareParam "B" (.cls box)
  let (s, foo) := s.declareClass "Foo" .concrete
  let (s, f) := s.declareParam "F" (.cls foo)
  let s := s.addSupertype foo ⟨list, [.cls box [Ty.extending (.param f)]]⟩
  let (s, m) := s.declareMethod "first" .method none
  let (s, t) := s.declareParam "M" (.method m)
  { store := s.setSignature m [⟨"list", .cls list [.param t]⟩] (.param t) false }

def boxListTaken : CallSite :=
  { id := 0, candidates := [19], args := [.known (some (.cls 17 [Ty.above (.param 20)]))] }

/-- The type `Foo<? super M>` is seen as `List<Box<?>>`, which does not have `M` in it. Once its
wildcard is captured, the capture stands in the place of `?`, and `M` with it. -/
theorem not_exact_of_hidden_parameter :
    boxLists.store.PlainSupers ∧ (∀ c, Store.FewAncestors boxLists.store c) ∧
    (∃ method, boxLists.store.method? 19 = some method ∧ Linear method [⟨13, [20]⟩]) ∧
    Store.Ancestor boxLists.store 17 13 ∧
    (∃ lifted, boxLists.store.ancestorArgs ⟨17, [Ty.above (.param 20)]⟩ 13 = some lifted ∧
      ∀ t ∈ lifted, t.Answer [20]) ∧
    ∃ r, (boxLists.rankSite boxListTaken {}).1 = .ok r ∧
      r.candidates.map Candidate.phase = [.inapplicable] := by
  refine ⟨Store.forall_supertypes (by decide +kernel),
    Store.fewAncestors_of_length (by decide +kernel), ⟨_, rfl, rfl, by decide, by decide, rfl⟩,
    .single (by decide +kernel), ⟨_, rfl, fun t ht => ?_⟩, _, rfl, rfl⟩
  rw [List.mem_singleton.1 ht]
  exact ⟨nofun, nofun, nofun, by decide⟩

end Engine

end GenericCalls
