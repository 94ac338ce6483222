import GenericCalls.Proofs.Ranking.Runs

/-! # All answers or none

Inference answers for all type parameters of a request or erases them all, and never touches the
bindings of other parameters: neither what they are bound to nor where they stand. So do rankings
for each candidate. Only explicit type arguments are taken as they are, even one that mentions the
parameter that it is given for. -/

namespace GenericCalls

namespace KeyedList

variable {κ ν : Type} [DecidableEq κ] {k j : κ} {y : ν}

theorem getElem?_putEntry_of_ne (h : j ≠ k) (x : ν) (l : List (κ × ν)) (i : Nat) :
    (putEntry k x l)[i]? = some (j, y) ↔ l[i]? = some (j, y) := by
  induction l generalizing i with
  | nil =>
    cases i with
    | zero => simp [putEntry, Ne.symm h]
    | succ i => simp [putEntry]
  | cons e rest ih =>
    obtain ⟨k', z⟩ := e
    by_cases hk : k' = k
    · cases i with
      | zero => simp [putEntry, hk, Ne.symm h]
      | succ i => simp [putEntry, hk]
    · cases i with
      | zero => simp [putEntry, hk]
      | succ i => simpa [putEntry, hk] using ih i

end KeyedList

namespace Substitution

/-! ### Bindings of other parameters -/

/-- A substitution makes the bindings that a given one makes for parameters other than `ps`, at the
same positions, and no further ones. -/
def KeepsOutside (ps : List ParamId) (given σ : Substitution) : Prop :=
  ∀ q ∉ ps, ∀ (i : Nat) b, σ.toList[i]? = some (q, b) ↔ given.toList[i]? = some (q, b)

variable {ps : List ParamId} {given σ τ : Substitution} {p q : ParamId}

theorem KeepsOutside.refl (ps : List ParamId) (σ : Substitution) : KeepsOutside ps σ σ :=
  fun _ _ _ _ => .rfl

theorem KeepsOutside.trans (h : KeepsOutside ps given σ) (h' : KeepsOutside ps σ τ) :
    KeepsOutside ps given τ :=
  fun q hq i b => (h' q hq i b).trans (h q hq i b)

theorem keepsOutside_put (hp : p ∈ ps) (σ : Substitution) (b : Binding) :
    KeepsOutside ps σ (σ.put p b) := by
  intro q hq i c
  have hne : q ≠ p := by
    rintro rfl
    exact hq hp
  exact KeyedList.getElem?_putEntry_of_ne hne b _ i

theorem keepsOutside_putAll {l : List (ParamId × Binding)} (h : ∀ a ∈ l, a.1 ∈ ps)
    (σ : Substitution) : KeepsOutside ps σ ⟨σ.bindings.putAll l⟩ := by
  induction l generalizing σ with
  | nil => exact .refl ps σ
  | cons a l ih =>
    obtain ⟨ha, hl⟩ := List.forall_mem_cons.1 h
    exact (keepsOutside_put ha σ a.2).trans (ih hl (σ.put a.1 a.2))

theorem keepsOutside_eraseAll {l : List ParamId} (h : ∀ p ∈ l, p ∈ ps) (σ : Substitution) :
    KeepsOutside ps σ (σ.eraseAll l) := by
  induction l generalizing σ with
  | nil => exact .refl ps σ
  | cons p l ih =>
    obtain ⟨hp, hl⟩ := List.forall_mem_cons.1 h
    exact (keepsOutside_put hp σ .erased).trans (ih hl (σ.put p .erased))

/-! ### Answers for all parameters -/

/-- A parameter is bound to a type that does not mention it, or as it was. -/
def Settles (given σ : Substitution) (p : ParamId) : Prop :=
  (∃ t, σ.get? p = some (.bound t) ∧ t.mentions p = false) ∨ σ.get? p = given.get? p

/-- A substitution answers for all of `ps` or erases them all, and keeps all other bindings. -/
structure Answers (ps : List ParamId) (given σ : Substitution) : Prop where
  all : σ = given.eraseAll ps ∨ ∀ p ∈ ps, given.Settles σ p
  outside : KeepsOutside ps given σ

theorem answers_eraseAll (ps : List ParamId) (given : Substitution) :
    Answers ps given (given.eraseAll ps) :=
  ⟨.inl rfl, keepsOutside_eraseAll (fun _ hp => hp) given⟩

theorem Answers.not_erased (h : Answers ps given σ) (hgiven : ∀ p ∈ ps, given.get? p = none)
    (hp : p ∈ ps) (hq : q ∈ ps) {t : Ty} (hbound : σ.get? q = some (.bound t)) :
    σ.get? p ≠ some .erased := by
  rcases h.all with rfl | hall
  · rw [get?_eraseAll, if_pos hq] at hbound
    cases hbound
  · intro herased
    rcases hall p hp with ⟨u, hu, _⟩ | hsame
    · rw [herased] at hu
      cases hu
    · rw [hgiven p hp, herased] at hsame
      cases hsame

/-! ### Explicit type arguments -/

theorem mem_zip_of_get?_ofArgs {ts : List Ty} {b : Binding}
    (h : (ofArgs ps ts).get? p = some b) : ∃ t, (p, t) ∈ ps.zip ts ∧ b = .bound t := by
  rcases get?_putAll_eq_some h with hempty | hmem
  · cases hempty
  · obtain ⟨i, hi, heq⟩ := List.getElem_of_mem hmem
    rw [List.getElem_zipWith] at heq
    cases heq
    rw [List.length_zipWith, ← List.length_zip] at hi
    exact ⟨_, List.mem_iff_getElem.2 ⟨i, hi, List.getElem_zip⟩, rfl⟩

theorem keepsOutside_merge_ofArgs (given : Substitution) (ps : List ParamId) (ts : List Ty) :
    KeepsOutside ps given (given.merge (ofArgs ps ts)) := by
  refine keepsOutside_putAll (fun a ha => ?_) given
  have hget : (ofArgs ps ts).get? a.1 = some a.2 := KeyedList.mem_entries_iff.1 ha
  exact (get?_ofArgs hget).1

theorem exists_get?_merge_ofArgs (given : Substitution) {ts : List Ty} (hp : p ∈ ps)
    (hlength : ts.length = ps.length) :
    ∃ t, (p, t) ∈ ps.zip ts ∧ (given.merge (ofArgs ps ts)).get? p = some (.bound t) := by
  obtain ⟨t, _, ht⟩ := exists_get?_ofArgs hp hlength
  obtain ⟨u, hu, heq⟩ := mem_zip_of_get?_ofArgs ht
  cases heq
  exact ⟨t, hu, by rw [get?_merge, ht, Option.some_or]⟩

end Substitution

namespace Engine
open Run Substitution

variable {e : Engine} {rank : CallId → Run Ranked} {site : CallSite} {s t : Session}

/-! ### Conclusions -/

theorem keepsOutside_bindAll? {ps : List ParamId} {l : List (ParamId × Option Ty)}
    {given σ : Substitution} (h : bindAll? given l = some σ) (hl : ∀ a ∈ l, a.1 ∈ ps) :
    KeepsOutside ps given σ := by
  induction l generalizing given with
  | nil =>
    cases h
    exact .refl ps _
  | cons a rest ih =>
    obtain ⟨p, t⟩ := a
    obtain ⟨hp, hrest⟩ := List.forall_mem_cons.1 hl
    cases t with
    | none => cases h
    | some t =>
      rw [bindAll?] at h
      have htail := ih h hrest
      split at htail
      · exact htail
      · exact (keepsOutside_put hp given (.bound t)).trans htail

theorem settles_bindAll? {l : List (ParamId × Option Ty)} {given σ : Substitution}
    (h : bindAll? given l = some σ) (p : ParamId) : given.Settles σ p := by
  rcases get?_bindAll? h p with ⟨hget, _⟩ | ⟨t, _, hmention, hget⟩
  · exact .inr hget
  · exact .inl ⟨t, hget, hmention⟩

/-- Whatever the verdicts are, the conclusion from them answers for all parameters or for none. -/
theorem answers_conclude (st : Store) (r : Request) (vs : List Verdict) :
    Answers r.typeParams r.given (conclude st r vs) := by
  rcases conclude_cases st r vs with herased | ⟨_, hσ⟩
  · rw [herased]
    exact answers_eraseAll ..
  · refine ⟨.inr fun p _ => settles_bindAll? hσ p, keepsOutside_bindAll? hσ fun a ha => ?_⟩
    exact (List.of_mem_zip ha).1

theorem answers_of_inferWith {r : Request} {σ : Substitution}
    (h : (e.inferWith rank r).run s = .ok (σ, t)) : Answers r.typeParams r.given σ := by
  obtain ⟨vs, u, _, hpure⟩ := exists_of_run_bind h
  cases hpure
  exact answers_conclude e.store r vs

theorem answers_infer (e : Engine) (r : Request) (s : Session) :
    Answers r.typeParams r.given (e.infer r s).1 := by
  unfold infer settle
  split
  · rename_i result h
    exact answers_of_inferWith h
  · exact answers_eraseAll ..

/-! ### Candidates -/

/-- The substitution of a candidate: as inference has it, except for explicit type arguments, which
erase the type parameters if their number is wrong, and are taken as they are otherwise. -/
structure CandidateAnswers (site : CallSite) (method : MethodDecl) (σ : Substitution) : Prop where
  outside : KeepsOutside method.typeParams site.given σ
  inferred : site.typeArgs = [] → Answers method.typeParams site.given σ
  erased : site.typeArgs ≠ [] → site.typeArgs.length ≠ method.typeParams.length →
    σ = site.given.eraseAll method.typeParams
  explicit : site.typeArgs ≠ [] → site.typeArgs.length = method.typeParams.length →
    ∀ p ∈ method.typeParams, ∃ t, (p, t) ∈ method.typeParams.zip site.typeArgs ∧
      σ.get? p = some (.bound t)

theorem candidateAnswers_of_run {method : MethodDecl} {as : List TypedArg} {σ : Substitution}
    (h : (e.candidateSubstitution rank site method as).run s = .ok (σ, t)) :
    CandidateAnswers site method σ := by
  unfold candidateSubstitution at h
  split at h
  · rename_i hnone
    rw [List.isEmpty_iff] at hnone
    cases h
    refine ⟨.refl _ _, fun _ => ?_, fun _ _ => ?_, fun _ _ p hp => ?_⟩
    · rw [hnone]
      exact answers_eraseAll [] site.given
    · rw [hnone]
      rfl
    · rw [hnone] at hp
      cases hp
  · split at h
    · rename_i hargs
      rw [List.isEmpty_iff] at hargs
      have hanswers := answers_of_inferWith h
      exact ⟨hanswers.outside, fun _ => hanswers, fun hne => absurd hargs hne,
        fun hne => absurd hargs hne⟩
    · rename_i hargs
      rw [List.isEmpty_iff] at hargs
      split at h
      · rename_i hlength
        cases h
        exact ⟨keepsOutside_merge_ofArgs _ _ _, fun hnil => absurd hnil hargs,
          fun _ hne => absurd hlength hne, fun _ _ p hp => exists_get?_merge_ofArgs _ hp hlength⟩
      · rename_i hlength
        cases h
        exact ⟨(answers_eraseAll ..).outside, fun hnil => absurd hnil hargs, fun _ _ => rfl,
          fun _ heq => absurd heq hlength⟩

/-- Explicit type arguments none of which mentions its own parameter are answers as inferred. -/
theorem CandidateAnswers.answers {method : MethodDecl} {σ : Substitution}
    (h : CandidateAnswers site method σ)
    (hfree : site.typeArgs.length = method.typeParams.length →
      ∀ a ∈ method.typeParams.zip site.typeArgs, a.2.mentions a.1 = false) :
    Answers method.typeParams site.given σ := by
  by_cases hargs : site.typeArgs = []
  · exact h.inferred hargs
  · by_cases hlength : site.typeArgs.length = method.typeParams.length
    · refine ⟨.inr fun p hp => ?_, h.outside⟩
      obtain ⟨t, ht, hget⟩ := h.explicit hargs hlength p hp
      exact .inl ⟨t, hget, hfree hlength _ ht⟩
    · rw [h.erased hargs hlength]
      exact answers_eraseAll ..

theorem candidateAnswers_of_rankSite {res : Resolution} (h : (e.rankSite site s).1 = .ok res) :
    ∀ c ∈ res.candidates, ∃ method, e.store.method? c.method = some method ∧
      CandidateAnswers site method c.substitution := by
  obtain ⟨_, _, _, hcandidates⟩ := ranked_of_rankSiteWith (run_of_rankSite h)
  intro c hc
  obtain ⟨hranked, method, hmethod⟩ := hcandidates c hc
  obtain ⟨u, v, hσ⟩ := hranked.substituted method hmethod
  exact ⟨method, hmethod, candidateAnswers_of_run hσ⟩

/-- Inference answers for all type parameters of a request or erases them all: each is bound to a
type that does not mention it, or as it was given. Every other binding stays, in its place. In
particular none is erased while another has a type if none of them was given. Each candidate of a
ranked call site is a declared method whose substitution is of this form. Only explicit type
arguments that are as many as the type parameters are taken as they are, each for the parameter in
its place; in another number they erase the type parameters. -/
theorem substitutions_all_or_nothing (e : Engine) (s : Session) :
    (∀ r : Request, Answers r.typeParams r.given (e.infer r s).1 ∧
      ((∀ p ∈ r.typeParams, r.given.get? p = none) → ∀ p ∈ r.typeParams, ∀ q ∈ r.typeParams,
        (e.infer r s).1.get? p = some .erased → ∀ t, (e.infer r s).1.get? q ≠ some (.bound t))) ∧
    ∀ site res, (e.rankSite site s).1 = .ok res → ∀ c ∈ res.candidates,
      ∃ method, e.store.method? c.method = some method ∧
        CandidateAnswers site method c.substitution ∧
        ((site.typeArgs.length = method.typeParams.length →
            ∀ a ∈ method.typeParams.zip site.typeArgs, a.2.mentions a.1 = false) →
          Answers method.typeParams site.given c.substitution) := by
  refine ⟨fun r => ⟨answers_infer e r s, fun hgiven p hp q hq herased t hbound => ?_⟩,
    fun site res hres c hc => ?_⟩
  · exact (answers_infer e r s).not_erased hgiven hp hq hbound herased
  · obtain ⟨method, hmethod, hanswers⟩ := candidateAnswers_of_rankSite hres c hc
    exact ⟨method, hmethod, hanswers, hanswers.answers⟩

/-- An engine with a generic method, and a call of it with the type parameter of the method as
explicit type argument for itself. -/
def selfApplied : Engine × CallSite :=
  let (s, m) := Store.standard.declareMethod "m" .method none
  let (s, t) := s.declareParam "T" (.method m)
  ({ store := s }, { id := 0, candidates := [m], typeArgs := [.param t] })

theorem substitutions_all_or_nothing_selfApplied :
    ∃ res, (selfApplied.1.rankSite selfApplied.2 {}).1 = .ok res ∧
      ∀ c ∈ res.candidates, ∃ method, selfApplied.1.store.method? c.method = some method ∧
        CandidateAnswers selfApplied.2 method c.substitution := by
  refine ⟨_, rfl, fun c hc => ?_⟩
  obtain ⟨method, hmethod, hanswers, _⟩ :=
    (substitutions_all_or_nothing selfApplied.1 {}).2 selfApplied.2 _ rfl c hc
  exact ⟨method, hmethod, hanswers⟩

/-- An explicit type argument may bind a type parameter to a type that mentions it. -/
theorem explicit_argument_mentions_itself :
    ∃ res c method, (selfApplied.1.rankSite selfApplied.2 {}).1 = .ok res ∧ c ∈ res.candidates ∧
      selfApplied.1.store.method? c.method = some method ∧
      ¬Answers method.typeParams selfApplied.2.given c.substitution := by
  refine ⟨_, _, _, rfl, List.mem_singleton.2 rfl, rfl, fun h => ?_⟩
  rcases h.all with herased | hall
  · cases congrArg (fun σ : Substitution => σ.get? 14) herased
  · rcases hall 14 (List.mem_singleton.2 rfl) with ⟨t, ht, hmention⟩ | hsame
    · cases ht
      cases hmention
    · cases hsame

end Engine

end GenericCalls
