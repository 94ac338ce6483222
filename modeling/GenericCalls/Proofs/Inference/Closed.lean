import GenericCalls.Proofs.Inference.Origins
import GenericCalls.Proofs.Ranking.Nesting

/-! # Closed answers

The answers of inference at a call do not mention the type parameters of the callable, as long as
nothing that inference is given does. The exception are answers taken from declared bounds, which
may mention other parameters: inference judges every parameter by itself, and does not put the
answer to one into that to another. -/

namespace GenericCalls.Engine

open Run Store Ty

variable {e : Engine} {r : Request} {s u v : Session} {p q : ParamId} {ps : List ParamId}

/-! ### Contexts -/

def contextOf? (e : Engine) (r : Request) : Option CallContext :=
  (r.call.bind e.calls.site?).map CallSite.context

/-- The types that the context of a request expects: the type of what the call is the value of, or,
where the call is an argument, the formal that takes it, as a candidate of the enclosing call has it
that is ranked in the session `s`. -/
inductive Expects (e : Engine) (r : Request) (s : Session) : Ty → Prop where
  | initial {t : Ty} (h : e.contextOf? r = some (.initial t)) : Expects e r s t
  | assignment {t : Ty} (h : e.contextOf? r = some (.assignment t)) : Expects e r s t
  | returned {t : Ty} (h : e.contextOf? r = some (.returned (some t))) : Expects e r s t
  | formal {inner outer : CallId} {index : Nat} {u v : Session} {ranking : Resolution}
      {c : Candidate} {method : MethodDecl} {t : Ty} (hcall : r.call = some inner)
      (hcontext : e.contextOf? r = some (.argument outer index))
      (hsame : s.guard.SameUse u.guard)
      (hrank : (Run.consulting outer inner (e.rankWithin s.nesting outer)).run u =
        .ok (some (.ok ranking), v))
      (hc : c ∈ ranking.candidates) (hmethod : e.store.method? c.method = some method)
      (hformal : formalFor? method index r.method.returns = some t) :
      Expects e r s (instantiate e.store c.substitution t)

/-- A type avoids the parameters of a request, or it is what the declared bounds of `q` give. -/
def ClosedOrBound (e : Engine) (r : Request) (q : ParamId) (t : Ty) : Prop :=
  t.Avoids r.typeParams ∨ e.AnsweredByBounds r q t

theorem closedOrBound_refine {c : Constraint} (hc : c.ty.Avoids r.typeParams) :
    e.ClosedOrBound r q (e.refine q r c).ty := by
  have hguess : (if e.options.isBestEffort && !c.ty.isWild then extending c.ty
      else c.ty).Avoids r.typeParams := by
    split <;> exact hc
  unfold refine
  dsimp only
  split
  · rename_i hreturns
    exact .inr (.inr ⟨hreturns, _, hguess, rfl⟩)
  · exact .inl hguess

theorem closedOrBound_fromExpected (hs : e.store.KeepsOut r.typeParams) {expected : Option Ty}
    (hexpected : ∀ t, expected = some t → t.Avoids r.typeParams) :
    e.ClosedOrBound r q (e.fromExpected q r expected).ty := by
  unfold fromExpected
  dsimp only
  generalize hassumed : expected.getD
    (if e.options.isBestEffort then Ty.null else e.store.object) = assumed
  have hdefault : assumed.Avoids r.typeParams := by
    rw [← hassumed]
    cases expected with
    | some t => exact hexpected t rfl
    | none =>
      rw [Option.getD_none]
      split
      · exact hs.preserves.null
      · exact hs.preserves.object
  split
  · rename_i c hc
    exact closedOrBound_refine (hs.preserves.constrain hdefault c hc)
  · exact .inr (.inl rfl)

theorem contextOf_of_contextSite {site : CallSite} (h : e.contextSite? p r = some site) :
    e.contextOf? r = some site.context := by
  obtain ⟨call, hcall, hsite⟩ := exists_call_of_contextSite h
  rw [contextOf?, hcall, Option.bind_some, hsite, Option.map_some]

theorem expects_of_expected {site : CallSite} {t : Ty} (hsite : e.contextSite? p r = some site)
    (h : site.context.expected? = some t) : e.Expects r s t := by
  have hcontext := contextOf_of_contextSite hsite
  cases hc : site.context with
  | initial u =>
    rw [hc] at h hcontext
    cases h
    exact .initial hcontext
  | assignment u =>
    rw [hc] at h hcontext
    cases h
    exact .assignment hcontext
  | returned u =>
    rw [hc] at h hcontext
    exact .returned (h ▸ hcontext)
  | _ =>
    rw [hc] at h
    cases h

theorem closedOrBound_of_contextAnswer (hs : e.store.KeepsOut r.typeParams)
    (hexpected : ∀ t, e.Expects r s t → t.Avoids r.typeParams) (hsame : s.guard.SameUse u.guard)
    {c : Constraint} (h : e.ContextAnswer (e.rankWithin s.nesting) p r u c) :
    e.ClosedOrBound r p c.ty := by
  cases h with
  | expected hsite h =>
    exact closedOrBound_fromExpected hs fun t ht => hexpected t (expects_of_expected hsite (h t ht))
  | candidate hsite hcall hcontext hrank hk hc =>
    have houter := contextOf_of_contextSite hsite
    rw [hcontext] at houter
    refine .inl (finds_fromCandidate hs.preserves (fun method t hmethod ht => ?_) hc)
    exact hexpected _ (.formal hcall houter hsame hrank hk hmethod ht)

/-! ### Verdicts -/

/-- The arguments of a request leave a parameter open: they bound it from above at most. -/
def LeavesOpen (e : Engine) (r : Request) (blocked : CallId → Bool) (p : ParamId) : Prop :=
  ∃ upper, r.argumentVerdict e.store blocked p = .pending upper

/-- How a verdict on a parameter comes about: it is fatal, or the arguments decide on a type that
avoids the parameters of the request, or they leave the parameter open, and its answer, if any, is
another such type or what declared bounds give. -/
inductive Judged (e : Engine) (r : Request) (blocked : CallId → Bool) (p : ParamId) :
    Verdict → Prop where
  | fatal {v : Verdict} (h : v.isFatal = true) : Judged e r blocked p v
  | decided {v : Verdict} {t : Ty} (h : v.exactTy? = some t) (ht : t.Avoids r.typeParams) :
      Judged e r blocked p v
  | leftOpen {v : Verdict} (hopen : e.LeavesOpen r blocked p)
      (h : ∀ t, v.ty? = some t → e.ClosedOrBound r p t) : Judged e r blocked p v

theorem judged_of_judge (hs : e.store.KeepsOut r.typeParams) (hargs : r.ArgsAvoid r.typeParams)
    (hexpected : ∀ t, e.Expects r s t → t.Avoids r.typeParams) (hsame : s.guard.SameUse u.guard)
    {w : Verdict} (h : (e.judge (e.rankWithin s.nesting) r p).run u = .ok (w, v)) :
    e.Judged r s.guard.isBlocked p w := by
  have hdecides := Request.decides_argumentVerdict hs.preserves hargs s.guard.isBlocked p
  have hcases := cases_of_judge h
  rw [hsame.isBlocked_eq] at hcases
  rcases hcases with hv | ⟨upper, answer, hv, hcontext, rfl⟩
  · rw [hv] at hdecides
    cases hdecides with
    | fatal hfatal => exact .fatal hfatal
    | exact ht => exact .decided rfl ht
  · rw [hv] at hdecides
    cases hdecides with
    | pending hupper =>
      refine .leftOpen ⟨upper, hv⟩ fun t ht => ?_
      rcases ty?_settleOpen ht with hbound | ⟨c, rfl, rfl⟩
      · exact .inl (hupper t hbound)
      · exact closedOrBound_of_contextAnswer hs hexpected hsame
          (contextAnswer_of_fromContext hcontext)

/-! ### Conclusions -/

theorem ne_none_of_bindAll? {l : List (ParamId × Option Ty)} {given σ : Substitution}
    (h : bindAll? given l = some σ) : ∀ a ∈ l, a.2 ≠ none := by
  induction l generalizing given with
  | nil => exact nofun
  | cons a rest ih =>
    obtain ⟨q, t⟩ := a
    cases t with
    | none => cases h
    | some t => exact List.forall_mem_cons.2 ⟨nofun, ih h⟩

theorem bound_of_found {st : Store} {vs : List Verdict} {σ : Substitution}
    (hσ : bindAll? r.given (r.typeParams.zip (found st r vs)) = some σ)
    (hlength : r.typeParams.length = vs.length) (hp : p ∈ r.typeParams)
    (hall : ∀ t, (p, some t) ∈ r.typeParams.zip (found st r vs) → t.Avoids r.typeParams) :
    ∃ t, σ.get? p = some (.bound t) ∧ t.Avoids r.typeParams := by
  obtain ⟨i, hi, rfl⟩ := List.getElem_of_mem hp
  have hlt : i < (found st r vs).length := by rwa [length_found, ← hlength]
  have hmem : (r.typeParams[i], (found st r vs)[i]) ∈ r.typeParams.zip (found st r vs) :=
    mem_zip_iff.2 ⟨i, List.getElem?_eq_getElem hi, List.getElem?_eq_getElem hlt⟩
  obtain ⟨t, ht⟩ := Option.ne_none_iff_exists'.1 (ne_none_of_bindAll? hσ _ hmem)
  have hmem : (r.typeParams[i], some t) ∈ r.typeParams.zip (found st r vs) := ht ▸ hmem
  rcases get?_bindAll? hσ r.typeParams[i] with ⟨_, hself⟩ | ⟨u, hu, _, hget⟩
  · cases (hself t hmem).symm.trans (hall t hmem _ hp)
  · exact ⟨u, hget, hall u hu⟩

/-- The parameter `q` is bound to the type `t` found for it, or left out because this mentions it.
If the request lists parameters twice, another type may have been found for it later. -/
def Shown (r : Request) (σ : Substitution) (q : ParamId) (t : Ty) : Prop :=
  σ.get? q = some (.bound t) ∨ t.mentions q = true ∧ σ.get? q = r.given.get? q ∨
    ¬r.typeParams.Nodup

/-- The arguments leave the parameter `q` open, and its answer is the type `t`, which its declared
bounds give and which mentions a parameter of the request that they mention. -/
structure Leak (e : Engine) (r : Request) (blocked : CallId → Bool) (σ : Substitution)
    (q : ParamId) (t : Ty) : Prop where
  leftOpen : e.LeavesOpen r blocked q
  answered : e.AnsweredByBounds r q t
  mentions : ∃ p ∈ r.typeParams, t.mentions p = true ∧ BoundMentions e.store q p
  shown : Shown r σ q t

/-- The arguments leave the parameter `p` open, and its answer is the type `t`, which follows from
the types `known` of its siblings; that of the sibling `q` is a leak. -/
structure ToldOfLeak (e : Engine) (r : Request) (blocked : CallId → Bool) (σ : Substitution)
    (p : ParamId) (t : Ty) (known : List (Option Ty)) (q : ParamId) (u : Ty) : Prop where
  leftOpen : e.LeavesOpen r blocked p
  follows : ∃ i : Nat, r.typeParams[i]? = some p ∧ known[i]? = some none ∧
    (e.store.reconcile r.given r.typeParams known)[i]? = some (some t)
  leak : (∃ j : Nat, r.typeParams[j]? = some q ∧ known[j]? = some (some u)) ∧ e.Leak r blocked σ q u
  shown : Shown r σ p t

variable {blocked : CallId → Bool} {σ : Substitution} {vs : List Verdict} {t : Ty}

theorem shown_of_found {st : Store}
    (hσ : bindAll? r.given (r.typeParams.zip (found st r vs)) = some σ)
    (hmem : (q, some t) ∈ r.typeParams.zip (found st r vs)) : Shown r σ q t := by
  by_cases hnodup : r.typeParams.Nodup
  · rcases get?_bindAll? hσ q with ⟨hget, hself⟩ | ⟨u, hu, _, hget⟩
    · exact .inr (.inl ⟨hself t hmem, hget⟩)
    · obtain ⟨i, hi, ht⟩ := mem_zip_iff.1 hmem
      obtain ⟨j, hj, hu⟩ := mem_zip_iff.1 hu
      have hlt := (List.getElem?_eq_some_iff.1 hi).1
      have hij : i = j := (List.getElem?_inj hlt hnodup).1 (hi.trans hj.symm)
      rw [hij, hu] at ht
      cases ht
      exact .inl hget
  · exact .inr (.inr hnodup)

/-- An answer that mentions a parameter of the request, although the parameter was judged by types
that mention none, is a leak. -/
theorem leak_of_judged (hgiven : r.given.Avoids r.typeParams) {w : Verdict}
    (hw : e.Judged r blocked q w) (hfatal : w.isFatal = false) (ht : w.ty? = some t)
    (hshown : Shown r σ q t) (hleaks : ¬t.Avoids r.typeParams) : e.Leak r blocked σ q t := by
  cases hw with
  | fatal h =>
    rw [hfatal] at h
    cases h
  | decided h hu =>
    cases (ty?_of_exactTy? h).symm.trans ht
    exact absurd hu hleaks
  | leftOpen hopen h =>
    have hbound := (h t ht).resolve_left hleaks
    refine ⟨hopen, hbound, ?_, hshown⟩
    unfold Ty.Avoids at hleaks
    push Not at hleaks
    obtain ⟨p, hp, hmention⟩ := hleaks
    rw [Bool.ne_false_iff] at hmention
    exact ⟨p, hp, hmention, hbound.boundMentions hgiven hp hmention⟩

theorem exists_judged (h : List.Forall₂ (e.Judged r blocked) ps vs) {i : Nat} {w : Verdict}
    (hw : vs[i]? = some w) : ∃ q, ps[i]? = some q ∧ e.Judged r blocked q w := by
  obtain ⟨hi, rfl⟩ := List.getElem?_eq_some_iff.1 hw
  have hlt : i < ps.length := h.length_eq ▸ hi
  exact ⟨ps[i], List.getElem?_eq_getElem hlt, h.get hlt hi⟩

/-- Where a type that mentions a parameter of the request follows from siblings, one of these
leaks. -/
theorem exists_leak_of_reconcile (hs : e.store.KeepsOut r.typeParams)
    (hgiven : r.given.Avoids r.typeParams)
    (hσ : bindAll? r.given (r.typeParams.zip (found e.store r vs)) = some σ)
    (hvs : List.Forall₂ (e.Judged r blocked) r.typeParams vs)
    (hfatal : ∀ w ∈ vs, w.isFatal = false)
    (h : some t ∈ e.store.reconcile r.given r.typeParams (vs.map Verdict.exactTy?))
    (hleaks : ¬t.Avoids r.typeParams) :
    ∃ q u, (∃ j : Nat, r.typeParams[j]? = some q ∧
      (vs.map Verdict.exactTy?)[j]? = some (some u)) ∧ e.Leak r blocked σ q u := by
  -- From types that avoid the parameters only such types follow.
  have hknown : ¬∀ u, some u ∈ vs.map Verdict.exactTy? → u.Avoids r.typeParams :=
    fun hknown => hleaks (hs.preserves.reconcileFrom hknown t h)
  push Not at hknown
  obtain ⟨u, hu, hleaks⟩ := hknown
  obtain ⟨w, hw, hexact⟩ := List.mem_map.1 hu
  obtain ⟨j, hj⟩ := List.mem_iff_getElem?.1 hw
  obtain ⟨q, hq, hjudged⟩ := exists_judged hvs hj
  have hshown := shown_of_found hσ (mem_zip_iff.2 ⟨j, hq, getElem?_found hj hexact⟩)
  refine ⟨q, u, ⟨j, hq, ?_⟩, ?_⟩
  · rw [List.getElem?_map, hj, Option.map_some, hexact]
  · exact leak_of_judged hgiven hjudged (hfatal w hw) (ty?_of_exactTy? hexact) hshown hleaks

/-- A type found for a parameter avoids the parameters of the request, or it is a leak, or the
parameter is told of one. -/
theorem avoids_or_leak_of_found (hs : e.store.KeepsOut r.typeParams)
    (hgiven : r.given.Avoids r.typeParams)
    (hσ : bindAll? r.given (r.typeParams.zip (found e.store r vs)) = some σ)
    (hvs : List.Forall₂ (e.Judged r blocked) r.typeParams vs)
    (hfatal : ∀ w ∈ vs, w.isFatal = false)
    (h : (p, some t) ∈ r.typeParams.zip (found e.store r vs)) :
    t.Avoids r.typeParams ∨ e.Leak r blocked σ p t ∨
      ∃ known q u, e.ToldOfLeak r blocked σ p t known q u := by
  by_cases hleaks : t.Avoids r.typeParams
  · exact .inl hleaks
  have hshown := shown_of_found hσ h
  obtain ⟨i, hp, ht⟩ := mem_zip_iff.1 h
  have hlt : i < vs.length := by
    rw [← length_found e.store r vs]
    exact (List.getElem?_eq_some_iff.1 ht).1
  have hw : vs[i]? = some vs[i] := List.getElem?_eq_getElem hlt
  have hnotFatal : vs[i].isFatal = false := hfatal _ (List.getElem_mem hlt)
  obtain ⟨q, hq, hjudged⟩ := exists_judged hvs hw
  cases hp.symm.trans hq
  have hleak (hty : vs[i].ty? = some t) : e.Leak r blocked σ p t :=
    leak_of_judged hgiven hjudged hnotFatal hty hshown hleaks
  cases hexact : vs[i].exactTy? with
  | some u =>
    cases (getElem?_found hw hexact).symm.trans ht
    exact .inr (.inl (hleak (ty?_of_exactTy? hexact)))
  | none =>
    have hopen : e.LeavesOpen r blocked p := by
      cases hjudged with
      | fatal h => cases hnotFatal.symm.trans h
      | decided h _ => cases hexact.symm.trans h
      | leftOpen h _ => exact h
    rcases reconcile_or_upperTy ht with hfollows | ⟨w, hw', hupper⟩
    · obtain ⟨q, u, hknown, hleak⟩ := exists_leak_of_reconcile hs hgiven hσ hvs hfatal
        (List.mem_of_getElem? hfollows) hleaks
      have hnone : (vs.map Verdict.exactTy?)[i]? = some none := by
        rw [List.getElem?_map, hw, Option.map_some, hexact]
      exact .inr (.inr ⟨_, q, u, hopen, ⟨i, hp, hnone, hfollows⟩, ⟨hknown, hleak⟩, hshown⟩)
    · cases hw.symm.trans hw'
      exact .inr (.inl (hleak (ty?_of_upperTy? hupper)))

theorem closed_or_leak_of_conclude (hs : e.store.KeepsOut r.typeParams)
    (hgiven : r.given.Avoids r.typeParams)
    (hvs : List.Forall₂ (e.Judged r blocked) r.typeParams vs) :
    conclude e.store r vs = r.given.eraseAll r.typeParams ∨
      ∀ p ∈ r.typeParams,
        (∃ t, (conclude e.store r vs).get? p = some (.bound t) ∧ t.Avoids r.typeParams) ∨
        ∃ t, e.Leak r blocked (conclude e.store r vs) p t ∨
          ∃ known q u, e.ToldOfLeak r blocked (conclude e.store r vs) p t known q u := by
  rcases conclude_cases e.store r vs with herased | ⟨hfatal, hσ⟩
  · exact .inl herased
  refine .inr fun p hp => ?_
  by_cases hall : ∀ t, (p, some t) ∈ r.typeParams.zip (found e.store r vs) →
      t.Avoids r.typeParams
  · exact .inl (bound_of_found hσ hvs.length_eq hp hall)
  · push Not at hall
    obtain ⟨t, ht, hleaks⟩ := hall
    have hfound := avoids_or_leak_of_found hs hgiven hσ hvs hfatal ht
    exact .inr ⟨t, hfound.resolve_left hleaks⟩

/-! ### Inference -/

/-- Where the store keeps the type parameters of a callable out, and neither the types of the
arguments nor those known beforehand nor those that the context expects mention one of them,
inference erases all parameters or binds each to a type that mentions none of them. The exception
are parameters that the arguments leave open: the answer to one may be taken from declared bounds
that mention another, and siblings that are open too may be told of it. -/
theorem infer_closed_or_leak (e : Engine) (r : Request) (s : Session)
    (hstore : e.store.KeepsOut r.typeParams) (hgiven : r.given.Avoids r.typeParams)
    (hargs : r.ArgsAvoid r.typeParams)
    (hexpected : ∀ t, e.Expects r s t → t.Avoids r.typeParams) :
    (e.infer r s).1 = r.given.eraseAll r.typeParams ∨
      ∀ p ∈ r.typeParams,
        (∃ t, (e.infer r s).1.get? p = some (.bound t) ∧ t.Avoids r.typeParams) ∨
        ∃ t, e.Leak r s.guard.isBlocked (e.infer r s).1 p t ∨
          ∃ known q u, e.ToldOfLeak r s.guard.isBlocked (e.infer r s).1 p t known q u := by
  unfold infer settle
  split
  · rename_i result h
    obtain ⟨vs, u, hjudge, hpure⟩ := exists_of_run_bind h
    cases hpure
    exact closed_or_leak_of_conclude hstore hgiven
      (forall₂_judgeAll_of_sameUse
        (fun _ _ _ _ hsame => judged_of_judge hstore hargs hexpected hsame) (.refl _) hjudge)
  · exact .inl rfl

/-- An engine with `List<E>` and a call that stands alone. The method `first` has parameters `A` and
`B` where `A` extends `List<B>`, and takes an `A`; `make` has parameters `C` and `D` where `C`
extends `List<D>`, and returns a `C`. Three methods with parameters `P` and `Q` take a `List<P>`, a
`List<P>`, and a `Wrap<P>` with a list of `Y`. The `Q` of each gets out of its scope once: into a
supertype of `Odd<Z>`, the bound of the `X` of `Box<X>`, and the bound of the `Y` of `Wrap<Y>`. -/
def mixedScopes : Engine :=
  let (s, list) := Store.standard.declareClass "List" .interface
  let (s, _) := s.declareParam "E" (.cls list)
  let (s, first) := s.declareMethod "first" .method none
  let (s, a) := s.declareParam "A" (.method first)
  let (s, b) := s.declareParam "B" (.method first)
  let s := s.setBounds a [.cls list [.param b]]
  let s := s.setSignature first [⟨"items", .param a⟩] (.prim .void) false
  let (s, make) := s.declareMethod "make" .method none
  let (s, c) := s.declareParam "C" (.method make)
  let (s, d) := s.declareParam "D" (.method make)
  let s := s.setBounds c [.cls list [.param d]]
  let s := s.setSignature make [] (.param c) false
  let (s, ofOdd) := s.declareMethod "ofOdd" .method none
  let (s, p) := s.declareParam "P" (.method ofOdd)
  let (s, q) := s.declareParam "Q" (.method ofOdd)
  let s := s.setSignature ofOdd [⟨"items", .cls list [.param p]⟩] (.prim .void) false
  let (s, odd) := s.declareClass "Odd" .concrete
  let (s, _) := s.declareParam "Z" (.cls odd)
  let s := s.addSupertype odd ⟨list, [.param q]⟩
  let (s, ofBox) := s.declareMethod "ofBox" .method none
  let (s, p) := s.declareParam "P" (.method ofBox)
  let (s, q) := s.declareParam "Q" (.method ofBox)
  let s := s.setSignature ofBox [⟨"items", .cls list [.param p]⟩] (.prim .void) false
  let (s, box) := s.declareClass "Box" .concrete
  let (s, x) := s.declareParam "X" (.cls box)
  let s := s.setBounds x [.cls list [.param q]]
  let (s, ofWrap) := s.declareMethod "ofWrap" .method none
  let (s, p) := s.declareParam "P" (.method ofWrap)
  let (s, q) := s.declareParam "Q" (.method ofWrap)
  let (s, wrap) := s.declareClass "Wrap" .concrete
  let (s, y) := s.declareParam "Y" (.cls wrap)
  let s := s.setBounds y [.cls list [.param q]]
  let s := s.setSignature ofWrap
    [⟨"item", .cls wrap [.param p]⟩, ⟨"items", .cls list [.param y]⟩] (.prim .void) false
  { store := s, calls := CallGraph.empty.insert { id := 0 } }

/-- The request for parameters of a method with arguments of these types, at the call. -/
def scopedRequest (m : MethodId) (ps : List ParamId) (ts : List Ty) : Request where
  typeParams := ps
  method := (mixedScopes.store.method? m).getD default
  args := ts.map fun t => { ty := some t }
  given := .empty
  call := some 0

theorem not_expects_of_standalone (h : e.contextOf? r = some .standalone) {t : Ty} :
    ¬e.Expects r s t := by
  intro ht
  cases ht with
  | initial h' => cases h.symm.trans h'
  | assignment h' => cases h.symm.trans h'
  | returned h' => cases h.symm.trans h'
  | formal _ h' => cases h.symm.trans h'

/-- The bound of `A` mentions `B`. With an argument for `A`, `B` follows from its sibling, and both
answers are closed. -/
theorem infer_closed_or_leak_first :
    BoundMentions mixedScopes.store 16 17 ∧
    ∀ p ∈ [16, 17], ∃ t,
      (mixedScopes.infer (scopedRequest 15 [16, 17] [.cls 13 [.raw 4]]) {}).1.get? p =
        some (.bound t) ∧ t.Avoids [16, 17] := by
  refine ⟨⟨_, List.mem_singleton.2 rfl, rfl, .inl (by decide)⟩, ?_⟩
  have hstore : mixedScopes.store.KeepsOut [16, 17] :=
    keepsOut_of_declared (by decide +kernel) (by decide +kernel) (by decide +kernel)
  have hargs : (scopedRequest 15 [16, 17] [.cls 13 [.raw 4]]).ArgsAvoid [16, 17] := by
    unfold Request.ArgsAvoid
    decide +kernel
  have hnone {σ : Substitution} : ∀ q ∈ [16, 17], ∀ t, ¬mixedScopes.Leak
      (scopedRequest 15 [16, 17] [.cls 13 [.raw 4]]) ({} : Session).guard.isBlocked σ q t := by
    intro q hq t hleak
    rcases List.mem_pair.1 hq with rfl | rfl
    · obtain ⟨upper, hupper⟩ := hleak.leftOpen
      cases hupper
    · obtain ⟨_, _, _, b, hb, _⟩ := hleak.mentions
      cases hb
  rcases infer_closed_or_leak mixedScopes (scopedRequest 15 [16, 17] [.cls 13 [.raw 4]]) {} hstore
    (Substitution.avoids_empty _) hargs fun _ ht => absurd ht (not_expects_of_standalone rfl) with
    herased | hall
  · cases congrArg (fun σ : Substitution => σ.get? 16) herased
  · intro p hp
    rcases hall p hp with hclosed | ⟨t, hleak | ⟨known, q, u, htold⟩⟩
    · exact hclosed
    · exact absurd hleak (hnone p hp t)
    · obtain ⟨⟨j, hj, _⟩, hleak⟩ := htold.leak
      exact absurd hleak (hnone q (List.mem_of_getElem? hj) u)

/-- Requests without arguments for the parameters of `first` and `make`, and requests for those of
the other three methods, each with arguments for one reason. -/
def leakingRequests : List Request :=
  [scopedRequest 15 [16, 17] [], scopedRequest 18 [19, 20] [],
    scopedRequest 21 [22, 23] [.cls 24 [.raw 4]], scopedRequest 26 [27, 28] [.param 30],
    scopedRequest 31 [32, 33, 35] [.cls 34 [anything], .cls 13 [.raw 4]]]

/-- A parameter is bound to a type that mentions a sibling: to its declared bound, as the answer
without expected type and as what narrows a guess; or to a type that mentions the sibling although
it is out of scope. -/
theorem infer_not_closed :
    (mixedScopes.store.KeepsOut [16, 17] ∧ mixedScopes.store.KeepsOut [19, 20]) ∧
    ∀ r ∈ leakingRequests, r.given.Avoids r.typeParams ∧ r.ArgsAvoid r.typeParams ∧
      (∀ t, ¬mixedScopes.Expects r {} t) ∧
      ∃ p ∈ r.typeParams, ∃ t, (mixedScopes.infer r {}).1.get? p = some (.bound t) ∧
        ¬t.Avoids r.typeParams := by
  have hfirst : mixedScopes.store.KeepsOut [16, 17] :=
    keepsOut_of_declared (by decide +kernel) (by decide +kernel) (by decide +kernel)
  have hmake : mixedScopes.store.KeepsOut [19, 20] :=
    keepsOut_of_declared (by decide +kernel) (by decide +kernel) (by decide +kernel)
  refine ⟨⟨hfirst, hmake⟩, fun r hr => ?_⟩
  have hargs : ∀ r ∈ leakingRequests, r.ArgsAvoid r.typeParams := by
    unfold Request.ArgsAvoid
    decide +kernel
  have hall := hargs r hr
  simp only [leakingRequests, List.mem_cons, List.not_mem_nil, or_false] at hr
  rcases hr with rfl | rfl | rfl | rfl | rfl <;>
    refine ⟨Substitution.avoids_empty _, hall, fun _ => not_expects_of_standalone rfl, ?_⟩
  · exact ⟨16, by decide, _, rfl, by decide⟩
  · exact ⟨19, by decide, _, rfl, by decide⟩
  · exact ⟨22, by decide, _, rfl, by decide⟩
  · exact ⟨27, by decide, _, rfl, by decide⟩
  · exact ⟨32, by decide, _, rfl, by decide⟩

end GenericCalls.Engine
