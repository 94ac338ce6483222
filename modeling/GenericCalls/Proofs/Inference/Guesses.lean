import GenericCalls.Proofs.Inference.Contexts
import GenericCalls.Proofs.Inference.Exact
import GenericCalls.Proofs.Ranking.Nesting
import GenericCalls.Proofs.Store.Views

/-! # Guesses from the context

In best-effort mode, a type parameter that the arguments leave open is guessed from the context of
the call. The guess is a wildcard from above, unless the context states a wildcard of its own. What
becomes of it is followed from the context to the report: through the verdict, the completion from
siblings and the substitution. -/

namespace GenericCalls

open Ty Store

/-! ### Evidence from above -/

namespace Evidence

variable {s : Store} {e e' : Evidence} {r : MatchResult} {rs : List MatchResult}

/-- The evidence is at most an upper bound. -/
structure OnlyUpper (e : Evidence) : Prop where
  exact : e.exact = none
  captured : e.captured = none
  lower : e.lower = none

theorem OnlyUpper.add (he : e.OnlyUpper) (hr : ∀ c, r = .found c → c.bearing = .atMost)
    (h : e.add s r = .ok e') : e'.OnlyUpper ∧ ((∀ c, r ≠ .found c) → e'.upper = e.upper) := by
  unfold Evidence.add at h
  rw [he.exact] at h
  cases r with
  | noInfo =>
    cases h
    exact ⟨he, fun _ => rfl⟩
  | failed | raw => cases h
  | found c =>
    dsimp only [addConstraint] at h
    rw [hr c rfl] at h
    cases h
    exact ⟨⟨he.exact, he.captured, he.lower⟩, fun hnone => absurd rfl (hnone c)⟩

theorem OnlyUpper.addAll (he : e.OnlyUpper)
    (hrs : ∀ c, .found c ∈ rs → c.bearing = .atMost) (h : e.addAll s rs = .ok e') :
    e'.OnlyUpper ∧ ((∀ c, .found c ∉ rs) → e'.upper = e.upper) := by
  induction rs generalizing e with
  | nil =>
    cases h
    exact ⟨he, fun _ => rfl⟩
  | cons r rs ih =>
    obtain ⟨m, hadd, h⟩ := exists_of_addAll_cons h
    obtain ⟨hm, hkept⟩ := he.add (fun c hc => hrs c (hc ▸ List.mem_cons_self)) hadd
    obtain ⟨he', hrest⟩ := ih hm (fun c hc => hrs c (List.mem_cons_of_mem _ hc)) h
    refine ⟨he', fun hnone => ?_⟩
    rw [hrest fun c hc => hnone c (List.mem_cons_of_mem _ hc)]
    exact hkept fun c hc => hnone c (hc ▸ List.mem_cons_self)

end Evidence

/-- Arguments that state at most upper bounds leave the parameter open, unless they make inference
fail. -/
theorem Request.argumentVerdict_of_atMost {r : Request} {s : Store} {blocked : CallId → Bool}
    {p : ParamId} (h : ∀ c, .found c ∈ r.results s blocked p → c.bearing = .atMost) :
    (∃ v, r.argumentVerdict s blocked p = .decided v ∧ v.isFatal = true) ∨
      ∃ upper, r.argumentVerdict s blocked p = .pending upper ∧
        ((∀ c, .found c ∉ r.results s blocked p) → upper = none) := by
  unfold argumentVerdict
  cases hadd : ({} : Evidence).addAll s (r.results s blocked p) with
  | error v => exact .inl ⟨v, rfl, Evidence.isFatal_of_addAll hadd⟩
  | ok e =>
    have hnone : ({} : Evidence).OnlyUpper := ⟨rfl, rfl, rfl⟩
    obtain ⟨⟨hexact, hcaptured, hlower⟩, hupper⟩ := hnone.addAll h hadd
    refine .inr ⟨e.upper, ?_, hupper⟩
    simp only [Evidence.decide?, hexact, hcaptured, hlower]

/-! ### What the context gives -/

/-- A type as a guess from above; a wildcard stays as it is. -/
def Ty.asGuess (t : Ty) : Ty := if t.isWild then t else .extending t

theorem Ty.mentions_asGuess (t : Ty) (p : ParamId) : t.asGuess.mentions p = t.mentions p := by
  unfold asGuess
  split <;> rfl

theorem Ty.asGuess_of_not_lower {t : Ty} (h : ∀ b, t ≠ .wild .lower b) :
    ∃ b, t.asGuess = .wild .upper b := by
  cases t with
  | wild k b =>
    cases k with
    | upper => exact ⟨b, rfl⟩
    | lower => exact absurd rfl (h b)
  | _ => exact ⟨_, rfl⟩

namespace Engine
open Run

variable {e : Engine} {r : Request} {p : ParamId} {s : Session} {site : CallSite}

/-- The match of the return type against an expected type, or against what is taken where none is
expected. -/
def matchExpected (e : Engine) (p : ParamId) (r : Request) (expected : Option Ty) : MatchResult :=
  e.store.constrain p .intoContext r.method.returns
    (expected.getD (if e.options.isBestEffort then .null else e.store.object))

theorem fromExpected_eq (e : Engine) (p : ParamId) (r : Request) (expected : Option Ty) :
    e.fromExpected p r expected =
      match e.matchExpected p r expected with
      | .found c => e.refine p r c
      | _ => e.fromBound p r := rfl

/-- The type that an expected type gives to a parameter, before it is made a guess: what the return
type is matched with, or else the primary bound. -/
def contextTy (e : Engine) (p : ParamId) (r : Request) (expected : Option Ty) : Ty :=
  match e.matchExpected p r expected with
  | .found c => c.ty
  | _ => ((e.store.primaryBound? p).bind (r.given.put p .erased).substitute).getD e.store.object

/-- No declared bound of the parameter takes the place of a guess. -/
def KeepsGuess (e : Engine) (p : ParamId) (r : Request) (expected : Option Ty) : Prop :=
  ∀ c, e.matchExpected p r expected = .found c → r.method.returns.isParam p = true →
    narrow e.store r.given p c.ty.asGuess (e.store.bounds p) = c.ty.asGuess

theorem ty_fromExpected {expected : Option Ty} (hmode : e.options.isBestEffort = true)
    (hkeeps : e.KeepsGuess p r expected) :
    (e.fromExpected p r expected).ty = (e.contextTy p r expected).asGuess := by
  have hguess : ∀ t : Ty, (if e.options.isBestEffort && !t.isWild then Ty.extending t else t) =
      t.asGuess := by
    intro t
    rw [hmode, Bool.true_and, asGuess]
    cases t.isWild <;> rfl
  have hbound : (e.fromBound p r).ty =
      (((e.store.primaryBound? p).bind (r.given.put p .erased).substitute).getD
        e.store.object).asGuess := by
    rw [← hguess]
    unfold fromBound
    dsimp only
    split <;> rfl
  have hrefine : ∀ c, e.matchExpected p r expected = .found c →
      (e.refine p r c).ty = c.ty.asGuess := by
    intro c hc
    unfold refine
    simp only [hguess]
    by_cases hself : r.method.returns.isParam p = true
    · rw [if_pos hself]
      exact hkeeps c hc hself
    · rw [if_neg hself]
  rw [fromExpected_eq, contextTy]
  cases hmatch : e.matchExpected p r expected with
  | found c => exact hrefine c hmatch
  | noInfo | failed | raw => exact hbound

/-! ### Verdicts from the context -/

def verdicts (e : Engine) (r : Request) (s : Session) : List Verdict :=
  (settle [] (e.judgeAll (e.rankWithin s.nesting) r r.typeParams) s).1

theorem run_verdicts (e : Engine) (r : Request) (s : Session) :
    ∃ t, (e.judgeAll (e.rankWithin s.nesting) r r.typeParams).run s = .ok (e.verdicts r s, t) :=
  ⟨_, (balanced_settle [] (concur_judgeAll e lasting_true (concur_rankWithin_add e s.nesting 0) r
    r.typeParams (ready_nesting s))).ends⟩

theorem infer_eq_conclude (e : Engine) (r : Request) (s : Session) :
    (e.infer r s).1 = conclude e.store r (e.verdicts r s) := by
  obtain ⟨t, ht⟩ := run_verdicts e r s
  have hrun : (e.inferWith (e.rankWithin s.nesting) r).run s =
      .ok (conclude e.store r (e.verdicts r s), t) := by
    unfold inferWith
    rw [run_bind_of_ok ht]
    rfl
  unfold infer
  rw [settle_eq _ hrun]

/-- The answer to a parameter is the one that the expected type gives, or the lack of one: the call
looks outward, no enclosing call answers, the arguments state at most upper bounds, and none of
these and no sibling comes before an answer that is only an upper bound itself. -/
structure AnsweredByExpected (e : Engine) (p : ParamId) (r : Request) (site : CallSite)
    (s : Session) : Prop where
  outward : e.contextSite? p r = some site
  silent : ∀ call outer index, r.call = some call → site.context = .argument outer index →
    ∀ u, s.guard.SameUse u.guard → ∃ v,
      (e.fromOuterCall? (e.rankWithin s.nesting) p call outer index r.method.returns).run u =
        .ok (none, v)
  upper : ∀ c, .found c ∈ r.results e.store s.guard.isBlocked p → c.bearing = .atMost
  alone : (e.fromExpected p r site.context.expected?).bearing = .atMost →
    ∀ c, .found c ∉ r.results e.store s.guard.isBlocked p
  unreconciled : (e.fromExpected p r site.context.expected?).bearing = .atMost →
    ∀ i : Nat, r.typeParams[i]? = some p →
      (e.store.reconcile r.given r.typeParams
        ((e.verdicts r s).map Verdict.exactTy?))[i]? = some none

namespace AnsweredByExpected

theorem run_fromContext (h : e.AnsweredByExpected p r site s) {u : Session}
    (hsame : s.guard.SameUse u.guard) :
    ∃ v, (e.fromContext? (e.rankWithin s.nesting) p r).run u =
      .ok (some (e.fromExpected p r site.context.expected?), v) := by
  obtain ⟨call, hcall, _⟩ := exists_call_of_contextSite h.outward
  unfold fromContext?
  rw [hcall, h.outward]
  dsimp only
  cases hcontext : site.context with
  | standalone | initial t | assignment t | returned t => exact ⟨u, rfl⟩
  | argument outer index =>
    dsimp only
    split
    · obtain ⟨v, hv⟩ := h.silent call outer index hcall hcontext u hsame
      refine ⟨v, ?_⟩
      rw [run_bind_of_ok hv]
      rfl
    · exact ⟨u, rfl⟩

/-- The verdict is the answer from the context, or makes inference fail. -/
theorem verdict (h : e.AnsweredByExpected p r site s) {u w : Session} {v : Verdict}
    (hsame : s.guard.SameUse u.guard)
    (hv : (e.judge (e.rankWithin s.nesting) r p).run u = .ok (v, w)) :
    v.isFatal = true ∨ v = .resolved (e.fromExpected p r site.context.expected?) := by
  have hcases := cases_of_judge hv
  rw [hsame.isBlocked_eq] at hcases
  rcases Request.argumentVerdict_of_atMost h.upper with ⟨v', hv', hfatal⟩ | ⟨upper, hupper, hnone⟩
  · rcases hcases with hdecided | ⟨_, _, hpending, _⟩
    · cases hv'.symm.trans hdecided
      exact .inl hfatal
    · cases hv'.symm.trans hpending
  · rcases hcases with hdecided | ⟨upper', answer, hpending, hcontext, rfl⟩
    · cases hupper.symm.trans hdecided
    · cases hupper.symm.trans hpending
      obtain ⟨w', hw'⟩ := h.run_fromContext hsame
      cases hcontext.symm.trans hw'
      right
      rw [settleOpen]
      split
      · rename_i hbearing
        rw [hnone (h.alone hbearing), Option.getD_none]
        cases hc : e.fromExpected p r site.context.expected? with
        | mk t b =>
          rw [hc] at hbearing
          cases hbearing
          rfl
      · rfl

theorem found (h : e.AnsweredByExpected p r site s)
    (hfatal : ∀ w ∈ e.verdicts r s, w.isFatal = false) {i : Nat} (hi : r.typeParams[i]? = some p) :
    (found e.store r (e.verdicts r s))[i]? =
      some (some (e.fromExpected p r site.context.expected?).ty) := by
  obtain ⟨t, ht⟩ := run_verdicts e r s
  have hverdicts := forall₂_judgeAll_of_sameUse (J := fun q v => q = p → v.isFatal = true ∨
      v = .resolved (e.fromExpected p r site.context.expected?))
    (fun q u v w hsame hv hq => h.verdict hsame (hq ▸ hv)) (.refl _) ht
  obtain ⟨hlt, _⟩ := List.getElem?_eq_some_iff.1 hi
  obtain ⟨v, hv⟩ : ∃ v, (e.verdicts r s)[i]? = some v :=
    ⟨_, List.getElem?_eq_getElem (hverdicts.length_eq ▸ hlt)⟩
  have hresolved : v = .resolved (e.fromExpected p r site.context.expected?) := by
    have hcases := (List.forall₂_iff_zip.1 hverdicts).2 (mem_zip_iff.2 ⟨i, hi, hv⟩) rfl
    rw [hfatal v (List.mem_of_getElem? hv)] at hcases
    exact hcases.resolve_left Bool.false_ne_true
  by_cases hbearing : (e.fromExpected p r site.context.expected?).bearing = .atMost
  · have hopen := h.unreconciled hbearing i hi
    unfold Engine.found
    rw [List.getElem?_zipWith, hopen, hv, hresolved]
    simp [Verdict.upperTy?, hbearing]
  · exact getElem?_found hv (by simp [hresolved, Verdict.exactTy?, hbearing])

end AnsweredByExpected

/-! ### Reports -/

theorem get?_of_conclude {st : Store} {vs : List Verdict} {t : Ty} (hp : p ∈ r.typeParams)
    (hmention : t.mentions p = false)
    (hfound : (∀ w ∈ vs, w.isFatal = false) → ∀ i : Nat, r.typeParams[i]? = some p →
      (found st r vs)[i]? = some (some t))
    (hwhole : conclude st r vs ≠ r.given.eraseAll r.typeParams) :
    (conclude st r vs).get? p = some (.bound t) := by
  obtain ⟨hfatal, hbind⟩ := (conclude_cases st r vs).resolve_left hwhole
  have hfound := hfound hfatal
  rcases get?_bindAll? hbind p with ⟨_, hself⟩ | ⟨u, hu, _, hget⟩
  · obtain ⟨i, hi⟩ := List.mem_iff_getElem?.1 hp
    cases (hself t (mem_zip_iff.2 ⟨i, hi, hfound i hi⟩)).symm.trans hmention
  · obtain ⟨i, hi, hui⟩ := mem_zip_iff.1 hu
    cases (hfound i hi).symm.trans hui
    exact hget

theorem mem_inferOutcomes {o : Outcome} (hp : p ∈ r.typeParams) :
    (p, o) ∈ (e.inferOutcomes r s).1 ↔ o = e.outcome (e.infer r s).1 p := by
  have hreports : (e.inferOutcomes r s).1 =
      r.typeParams.map fun q => (q, e.outcome (e.infer r s).1 q) := rfl
  rw [hreports, List.mem_map]
  constructor
  · rintro ⟨q, _, hq⟩
    cases hq
    rfl
  · rintro rfl
    exact ⟨p, hp, rfl⟩

/-- In best-effort mode, the answer that an expected type gives to a parameter, or the lack of one,
is reported as a guess from above, unless the context itself gives a wildcard from below, which is
reported as it is. -/
theorem expected_answer_guessed (e : Engine) (p : ParamId) (r : Request) (site : CallSite)
    (s : Session) (hmode : e.options.isBestEffort = true) (hp : p ∈ r.typeParams)
    (h : e.AnsweredByExpected p r site s) (hkeeps : e.KeepsGuess p r site.context.expected?)
    (hmention : (e.contextTy p r site.context.expected?).mentions p = false)
    (hwhole : (e.infer r s).1 ≠ r.given.eraseAll r.typeParams) :
    ((∀ b, e.contextTy p r site.context.expected? ≠ .wild .lower b) →
      ∃ b, (e.contextTy p r site.context.expected?).asGuess = .wild .upper b ∧
        ∀ o, (p, o) ∈ (e.inferOutcomes r s).1 ↔ o = .guess (.wild .upper b)) ∧
    ∀ b, e.contextTy p r site.context.expected? = .wild .lower b →
      ∀ o, (p, o) ∈ (e.inferOutcomes r s).1 ↔ o = .resolved (.wild .lower b) := by
  have hget : (e.infer r s).1.get? p =
      some (.bound (e.contextTy p r site.context.expected?).asGuess) := by
    rw [infer_eq_conclude] at hwhole ⊢
    refine get?_of_conclude hp (by rwa [mentions_asGuess]) (fun hfatal i hi => ?_) hwhole
    rw [h.found hfatal hi, ty_fromExpected hmode hkeeps]
  constructor
  · intro hupper
    obtain ⟨b, hb⟩ := asGuess_of_not_lower hupper
    refine ⟨b, hb, fun o => ?_⟩
    rw [mem_inferOutcomes hp, outcome, hget, hb]
    simp only [hmode, if_true]
  · intro b hb o
    rw [mem_inferOutcomes hp, outcome, hget, hb]
    rfl

/-- An engine in best-effort mode that knows lists, a method `listOf` that returns a `List<T>`, a
method `number` that returns a `U` where `U` extends `Integer`, a method `take` that takes a
`List<String>`, and calls: of `listOf` for a `List<? super Integer>`, of `number` for an `Integer`
and for a `Number`, and of `take` with a call of `listOf`. -/
def guessing : Engine :=
  let (s, listOf) := Store.lists.declareMethod "listOf" .method none
  let (s, t) := s.declareParam "T" (.method listOf)
  let s := s.setSignature listOf [] (.cls 13 [.param t]) false
  let (s, number) := s.declareMethod "number" .method none
  let (s, u) := s.declareParam "U" (.method number)
  let s := (s.setBounds u [.raw 9]).setSignature number [] (.param u) false
  let (s, take) := s.declareMethod "take" .method none
  let s := s.setSignature take [⟨"items", .cls 13 [.raw 4]⟩] (.prim .void) false
  let sites : List CallSite :=
    [{ id := 0, candidates := [listOf], context := .initial (.cls 13 [Ty.above (.raw 9)]) },
      { id := 1, candidates := [number], context := .initial (.raw 9) },
      { id := 2, candidates := [number], context := .initial (.raw 2) },
      { id := 3, candidates := [take], args := [.call 4] },
      { id := 4, candidates := [listOf], context := .argument 3 0 }]
  { store := s, calls := sites.foldl CallGraph.insert .empty, options := { mode := .bestEffort } }

/-- A request for the type parameters of a method without arguments, at a call. -/
def guessAt (m : MethodId) (call : CallId) : Request :=
  .ofMethod ((guessing.store.method? m).getD default) [] .empty (some call)

theorem expected_answer_guessed_number :
    (∃ b, Ty.extending (.raw 9) = .wild .upper b ∧
      ∀ o, (21, o) ∈ (guessing.inferOutcomes (guessAt 20 1) {}).1 ↔ o = .guess (.wild .upper b)) ∧
    ∀ o, (19, o) ∈ (guessing.inferOutcomes (guessAt 18 0) {}).1 ↔
      o = .resolved (Ty.above (.raw 9)) := by
  have hnumber : guessing.AnsweredByExpected 21 (guessAt 20 1)
      { id := 1, candidates := [20], context := .initial (.raw 9) } {} :=
    ⟨rfl, nofun, nofun, fun _ => nofun, nofun⟩
  have hlist : guessing.AnsweredByExpected 19 (guessAt 18 0)
      { id := 0, candidates := [18], context := .initial (.cls 13 [Ty.above (.raw 9)]) } {} :=
    ⟨rfl, nofun, nofun, fun _ => nofun, nofun⟩
  have hwhole : ∀ {σ τ : Substitution} {p t}, σ.get? p = some (.bound t) →
      τ.get? p = some .erased → σ ≠ τ := by
    rintro σ τ p t hσ hτ rfl
    cases hσ.symm.trans hτ
  constructor
  · refine (expected_answer_guessed guessing 21 (guessAt 20 1) _ {} rfl List.mem_cons_self hnumber
      (fun c hc _ => ?_) rfl (hwhole (p := 21) rfl rfl)).1 nofun
    cases hc
    rfl
  · refine (expected_answer_guessed guessing 19 (guessAt 18 0) _ {} rfl List.mem_cons_self hlist
      (fun c _ hself => ?_) rfl (hwhole (p := 19) rfl rfl)).2 _ rfl
    cases hself

/-- The answer from the context is no guess where the context gives a wildcard from below, where a
declared bound replaces the guess, and where the formal of an enclosing call gives it. -/
theorem context_answer_resolved :
    guessing.options.isBestEffort = true ∧
    ∀ a ∈ [(18, 0, 19, Ty.above (.raw 9)), (20, 2, 21, .raw 9), (18, 4, 19, .raw 4)],
      let (m, call, p, t) := a
      (guessAt m call).results guessing.store (fun _ => false) p = [] ∧
      (∃ b u, (guessing.fromContext? (guessing.rankWithin ({} : Session).nesting) p
        (guessAt m call)).run {} = .ok (some ⟨t, b⟩, u)) ∧
      t.mentions p = false ∧ (guessing.inferOutcomes (guessAt m call) {}).1 = [(p, .resolved t)] := by
  refine ⟨rfl, ?_⟩
  simp only [List.forall_mem_cons]
  exact ⟨⟨rfl, ⟨_, _, rfl⟩, rfl, rfl⟩, ⟨rfl, ⟨_, _, rfl⟩, rfl, rfl⟩,
    ⟨rfl, ⟨_, _, rfl⟩, rfl, rfl⟩, nofun⟩

end Engine

end GenericCalls
