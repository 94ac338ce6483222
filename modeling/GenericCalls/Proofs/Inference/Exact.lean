import GenericCalls.Proofs.Inference.Answers
import GenericCalls.Proofs.Inference.Evidence
import GenericCalls.Proofs.Store.Views
import GenericCalls.Proofs.Ty.Sameness
import GenericCalls.Ranking.Basic

/-! # Types that a parameter must equal

Some arguments say that a type parameter equals a type, which is no wildcard. Wherever they stand
among the others, they settle the verdict: two different such types contradict each other, and a
single one is the answer unless an argument makes inference fail. -/

namespace GenericCalls

open Ty

theorem Verdict.eq_of_isFatal {v : Verdict} (h : v.isFatal = true) : v = .failed ∨ v = .raw := by
  cases v with
  | resolved c | unresolved => cases h
  | failed => exact .inl rfl
  | raw => exact .inr rfl

/-- The type that a match equates the parameter with, if that is no wildcard. -/
def MatchResult.exactTy? : MatchResult → Option Ty
  | .found c => if c.bearing = .exactly ∧ c.ty.isWild = false then some c.ty else none
  | _ => none

theorem MatchResult.exactTy?_eq_some_iff {r : MatchResult} {t : Ty} :
    r.exactTy? = some t ↔ r = .found ⟨t, .exactly⟩ ∧ t.isWild = false := by
  cases r with
  | noInfo | failed | raw => simp [exactTy?]
  | found c =>
    obtain ⟨u, b⟩ := c
    simp only [exactTy?, Option.ite_none_right_eq_some, Option.some.injEq, found.injEq,
      Constraint.mk.injEq]
    constructor
    · rintro ⟨⟨rfl, hwild⟩, rfl⟩
      exact ⟨⟨rfl, rfl⟩, hwild⟩
    · rintro ⟨⟨rfl, rfl⟩, hwild⟩
      exact ⟨⟨rfl, hwild⟩, rfl⟩

/-- The types that matches equate the parameter with, wildcards aside. -/
def exactTypes (rs : List MatchResult) : List Ty := rs.filterMap MatchResult.exactTy?

theorem exactTypes_cons (r : MatchResult) (rs : List MatchResult) :
    exactTypes (r :: rs) = r.exactTy?.toList ++ exactTypes rs := by
  unfold exactTypes
  cases h : r.exactTy? with
  | none => rw [List.filterMap_cons_none h, Option.toList_none, List.nil_append]
  | some t => rw [List.filterMap_cons_some h, Option.toList_some, List.singleton_append]

/-! ### Gathering evidence -/

namespace Evidence

variable {s : Store} {e e' : Evidence} {r : MatchResult} {rs : List MatchResult}

theorem exact_of_addConstraint {c : Constraint} (he : e.exact = none)
    (h : e.addConstraint s c = .ok e') : e'.exact = (MatchResult.found c).exactTy? := by
  obtain ⟨t, b⟩ := c
  cases b with
  | exactly =>
    cases hwild : t.isWild with
    | false =>
      simp only [addConstraint, hwild, Bool.false_eq_true, if_false] at h
      cases h
      simp [MatchResult.exactTy?, hwild]
    | true =>
      simp only [addConstraint, hwild, if_true] at h
      split at h <;> cases h
      simpa [MatchResult.exactTy?, hwild] using he
  | atLeast =>
    simp only [addConstraint] at h
    split at h
    · cases h
      exact he
    · split at h
      · cases h
        exact he
      · split at h <;> cases h
        exact he
  | atMost =>
    cases h
    exact he

/-- One more match keeps the exact type that is known, and agrees with it. -/
theorem exact_of_add (h : e.add s r = .ok e') :
    e'.exact = e.exact.or r.exactTy? ∧
      ∀ t, e.exact = some t → ∀ u, r.exactTy? = some u → (u == t) = true := by
  unfold add at h
  cases hexact : e.exact with
  | none =>
    refine ⟨?_, nofun⟩
    rw [hexact] at h
    cases r with
    | noInfo =>
      cases h
      exact hexact
    | failed | raw => cases h
    | found c => exact exact_of_addConstraint hexact h
  | some t =>
    rw [hexact] at h
    have hkept : e' = e ∧ ∀ u, r.exactTy? = some u → (u == t) = true := by
      cases r with
      | noInfo | failed | raw =>
        cases h
        exact ⟨rfl, nofun⟩
      | found c =>
        dsimp only at h
        split at h
        · cases h
        · rename_i hagrees
          cases h
          refine ⟨rfl, fun u hu => ?_⟩
          obtain ⟨hc, hwild⟩ := MatchResult.exactTy?_eq_some_iff.1 hu
          cases hc
          simpa [hwild] using hagrees
    obtain ⟨rfl, hagrees⟩ := hkept
    refine ⟨hexact, fun t' ht' => ?_⟩
    cases ht'
    exact hagrees

/-- The evidence has the first of the types `ts`, which are all the same. -/
structure States (ts : List Ty) (e : Evidence) : Prop where
  first : e.exact = ts.head?
  same : ∀ t, e.exact = some t → ∀ u ∈ ts, (u == t) = true

theorem states_nil : States [] {} := ⟨rfl, nofun⟩

theorem States.add {ts : List Ty} (he : e.States ts) (h : e.add s r = .ok e') :
    e'.States (ts ++ r.exactTy?.toList) := by
  obtain ⟨hexact, hagrees⟩ := exact_of_add h
  cases hr : r.exactTy? with
  | none =>
    rw [hr, Option.or_none] at hexact
    rw [Option.toList_none, List.append_nil]
    exact ⟨hexact.trans he.first, fun t ht => he.same t (hexact.symm.trans ht)⟩
  | some u =>
    rw [hr] at hexact
    rw [Option.toList_some]
    cases hknown : e.exact with
    | none =>
      -- No type was known, so this one is the first.
      have hts : ts = [] := List.head?_eq_none_iff.1 (he.first.symm.trans hknown)
      rw [hknown, Option.none_or] at hexact
      subst hts
      refine ⟨hexact, fun t ht w hw => ?_⟩
      cases hexact.symm.trans ht
      rw [List.mem_singleton.1 hw]
      exact same_refl u
    | some t =>
      rw [hknown, Option.some_or] at hexact
      have hhead : ts.head? = some t := he.first.symm.trans hknown
      refine ⟨by rw [hexact, List.head?_append, hhead, Option.some_or], fun t' ht w hw => ?_⟩
      cases hexact.symm.trans ht
      rcases List.mem_append.1 hw with hw | hw
      · exact he.same t hknown w hw
      · rw [List.mem_singleton.1 hw]
        exact hagrees t hknown u hr

theorem States.addAll {ts : List Ty} (he : e.States ts) (h : e.addAll s rs = .ok e') :
    e'.States (ts ++ exactTypes rs) := by
  induction rs generalizing e ts with
  | nil =>
    cases h
    rwa [exactTypes, List.filterMap_nil, List.append_nil]
  | cons r rs ih =>
    obtain ⟨m, hadd, h⟩ := exists_of_addAll_cons h
    rw [exactTypes_cons, ← List.append_assoc]
    exact ih (he.add hadd) h

end Evidence

/-! ### Verdicts -/

variable {r : Request} {p : ParamId} {t : Ty}

/-- With a type that the parameter must equal, the arguments decide: they contradict themselves, or
the first such type is the answer and all are the same. -/
theorem Request.argumentVerdict_of_exact {s : Store} {blocked : CallId → Bool}
    (ht : t ∈ exactTypes (r.results s blocked p)) :
    ∃ v, r.argumentVerdict s blocked p = .decided v ∧
      (v.isFatal = true ∨ ∃ u, v = .resolved ⟨u, .exactly⟩ ∧
        (exactTypes (r.results s blocked p)).head? = some u ∧
        ∀ w ∈ exactTypes (r.results s blocked p), (w == u) = true) := by
  unfold argumentVerdict
  cases hadd : ({} : Evidence).addAll s (r.results s blocked p) with
  | error v => exact ⟨v, rfl, .inl (Evidence.isFatal_of_addAll hadd)⟩
  | ok e =>
    obtain ⟨hfirst, hsame⟩ := Evidence.states_nil.addAll hadd
    rw [List.nil_append] at hfirst hsame
    obtain ⟨u, hu⟩ := Option.isSome_iff_exists.1 (List.isSome_head?.2 (List.ne_nil_of_mem ht))
    rw [hu] at hfirst
    refine ⟨.resolved ⟨u, .exactly⟩, ?_, .inr ⟨u, rfl, hu, hsame u hfirst⟩⟩
    simp only [Evidence.decide?, hfirst]

namespace Engine
open Run

variable {e : Engine} {s : Session}

/-- The types that the arguments of a request equate a parameter with, where the session blocks some
nested calls. -/
def exactEvidence (e : Engine) (r : Request) (p : ParamId) (s : Session) : List Ty :=
  exactTypes (r.results e.store s.guard.isBlocked p)

/-- With a type that the parameter must equal, the verdict does not depend on the context, which is
not asked. -/
theorem judge_of_exact (rank : CallId → Run Ranked) (ht : t ∈ e.exactEvidence r p s) :
    ∃ v, (e.judge rank r p).run s = .ok (v, s) ∧
      (v.isFatal = true ∨ ∃ u, v = .resolved ⟨u, .exactly⟩ ∧
        (e.exactEvidence r p s).head? = some u ∧
        ∀ w ∈ e.exactEvidence r p s, (w == u) = true) := by
  obtain ⟨v, hv, hcases⟩ := Request.argumentVerdict_of_exact ht
  exact ⟨v, run_judge_of_argumentVerdict hv, hcases⟩

/-- A verdict agrees with the types that the parameter must equal. Two different ones make inference
fail, and the first is the answer if there is one, whatever else the arguments and the context
say. -/
theorem judge_agrees_with_exact (e : Engine) (rank : CallId → Run Ranked) (r : Request)
    (p : ParamId) (s : Session) :
    (∀ t ∈ e.exactEvidence r p s, ∀ u ∈ e.exactEvidence r p s, (t == u) = false →
      ∃ v, (e.judge rank r p).run s = .ok (v, s) ∧ (v = .failed ∨ v = .raw)) ∧
    (∀ t ts, e.exactEvidence r p s = t :: ts →
      ∃ v, (e.judge rank r p).run s = .ok (v, s) ∧
        (v = .failed ∨ v = .raw ∨ v = .resolved ⟨t, .exactly⟩)) := by
  constructor
  · intro t ht u hu hdiffer
    obtain ⟨v, hv, hfatal | ⟨w, _, _, hsame⟩⟩ := judge_of_exact rank ht
    · exact ⟨v, hv, Verdict.eq_of_isFatal hfatal⟩
    · have htu : (t == u) = true := same_trans (hsame t ht) ((same_comm w u).trans (hsame u hu))
      rw [hdiffer] at htu
      cases htu
  · intro t ts hts
    have ht : t ∈ e.exactEvidence r p s := hts ▸ List.mem_cons_self
    obtain ⟨v, hv, hfatal | ⟨w, rfl, hhead, _⟩⟩ := judge_of_exact rank ht
    · exact ⟨v, hv, (Verdict.eq_of_isFatal hfatal).imp_right .inl⟩
    · rw [hts] at hhead
      cases hhead
      exact ⟨_, hv, .inr (.inr rfl)⟩

def listJoin : Engine :=
  let (s, m) := Store.lists.declareMethod "join" .method none
  let (s, t) := s.declareParam "T" (.method m)
  let list : Ty := .cls 13 [.param t]
  { store := s.setSignature m [⟨"item", .param t⟩, ⟨"left", list⟩, ⟨"right", list⟩] list false }

def joinOf (ts : List Ty) : Request :=
  .ofMethod ((listJoin.store.method? 18).getD default) (ts.map fun t => { ty := some t }) .empty

/-- A list of integers and one of strings contradict each other; two lists of integers do not, also
next to an integer. -/
theorem judge_agrees_with_exact_lists :
    (∃ v, (listJoin.judge (listJoin.rankWithin 1)
        (joinOf [.raw 9, .cls 13 [.raw 9], .cls 13 [.raw 4]]) 19).run {} = .ok (v, {}) ∧
      (v = .failed ∨ v = .raw)) ∧
    ∃ v, (listJoin.judge (listJoin.rankWithin 1)
        (joinOf [.raw 9, .cls 13 [.raw 9], .cls 13 [.raw 9]]) 19).run {} = .ok (v, {}) ∧
      (v = .failed ∨ v = .raw ∨ v = .resolved ⟨.raw 9, .exactly⟩) := by
  have hboth : listJoin.exactEvidence (joinOf [.raw 9, .cls 13 [.raw 9], .cls 13 [.raw 4]]) 19 {} =
      [.raw 9, .raw 4] := rfl
  have hsame : listJoin.exactEvidence (joinOf [.raw 9, .cls 13 [.raw 9], .cls 13 [.raw 9]]) 19 {} =
      [.raw 9, .raw 9] := rfl
  constructor
  · refine (judge_agrees_with_exact listJoin _ _ 19 {}).1 (.raw 9) ?_ (.raw 4) ?_ rfl
    · rw [hboth]
      exact List.mem_cons_self
    · rw [hboth]
      exact List.mem_cons_of_mem _ List.mem_cons_self
  · exact (judge_agrees_with_exact listJoin _ _ 19 {}).2 (.raw 9) [.raw 9] hsame

end Engine

end GenericCalls
