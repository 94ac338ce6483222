import GenericCalls.Proofs.Inference.Evidence
import GenericCalls.Proofs.Session.Balance

/-! # Where verdicts come from

A verdict on a type parameter is what the arguments decide, or is settled from what they leave open
and what the context says. The context says what follows from an expected type, or what a candidate
of the enclosing call does. -/

namespace GenericCalls

def CallContext.expected? : CallContext → Option Ty
  | .initial t | .assignment t => some t
  | .returned t => t
  | .standalone | .argument _ _ => none

namespace Engine
open Run

variable {e : Engine} {rank : CallId → Run Ranked} {r : Request} {p : ParamId} {s t : Session}

/-! ### Contexts -/

/-- What a context says follows from the type that it states, if any, or is said by a candidate of
the enclosing call, which is ranked in the session `s`. -/
inductive ContextAnswer (e : Engine) (rank : CallId → Run Ranked) (p : ParamId) (r : Request)
    (s : Session) : Constraint → Prop where
  | expected {site : CallSite} {expected : Option Ty} (hsite : e.contextSite? p r = some site)
      (h : ∀ t, expected = some t → site.context.expected? = some t) :
      ContextAnswer e rank p r s (e.fromExpected p r expected)
  | candidate {site : CallSite} {inner outer : CallId} {index : Nat} {u : Session}
      {ranking : Resolution} {k : Candidate} {c : Constraint}
      (hsite : e.contextSite? p r = some site) (hcall : r.call = some inner)
      (hcontext : site.context = .argument outer index)
      (hrank : (Run.consulting outer inner (rank outer)).run s = .ok (some (.ok ranking), u))
      (hk : k ∈ ranking.candidates) (hc : e.fromCandidate? p index r.method.returns k = some c) :
      ContextAnswer e rank p r s c

theorem contextAnswer_of_fromContext {c : Constraint}
    (h : (e.fromContext? rank p r).run s = .ok (some c, t)) : e.ContextAnswer rank p r s c := by
  unfold fromContext? at h
  split at h
  · rename_i call site hcall hsite
    cases hcontext : site.context with
    | argument outer index =>
      rw [hcontext] at h
      have hdefault {u : Session}
          (h : (pure (some (e.fromExpected p r none)) : Run (Option Constraint)).run u =
            .ok (some c, t)) : e.ContextAnswer rank p r s c := by
        cases h
        exact .expected hsite nofun
      dsimp only at h
      split at h
      · obtain ⟨answer, u, houter, h⟩ := exists_of_run_bind h
        cases answer with
        | none => exact hdefault h
        | some c' =>
          cases h
          obtain ⟨ranked, u, hrank, h⟩ := exists_of_run_bind houter
          split at h
          · rename_i ranking
            have hfound : ranking.candidates.findSome? (e.fromCandidate? p index r.method.returns) =
                some c := (Prod.mk.inj (Except.ok.inj h)).1
            obtain ⟨k, hk, hc⟩ := List.exists_of_findSome?_eq_some hfound
            exact .candidate hsite hcall hcontext hrank hk hc
          · cases h
      · exact hdefault h
    | standalone =>
      rw [hcontext] at h
      cases h
      exact .expected hsite nofun
    | initial t | assignment t | returned t =>
      rw [hcontext] at h
      cases h
      exact .expected hsite fun u hu => by rw [hcontext]; exact hu
  · cases h

theorem finds_fromCandidate {P : Ty → Prop} (hs : e.store.Preserves P) {index : Nat} {returns : Ty}
    {k : Candidate} {c : Constraint}
    (hformal : ∀ method t, e.store.method? k.method = some method →
      formalFor? method index returns = some t → P (instantiate e.store k.substitution t))
    (h : e.fromCandidate? p index returns k = some c) : P c.ty := by
  obtain ⟨method, hmethod, h⟩ := Option.bind_eq_some_iff.1 h
  obtain ⟨formal, hf, h⟩ := Option.bind_eq_some_iff.1 h
  exact (hs.constrain (hformal method formal hmethod hf)).constraint? h

/-! ### Verdicts -/

theorem ty?_settleOpen {upper : Option Ty} {answer : Option Constraint} {u : Ty}
    (h : (settleOpen upper answer).ty? = some u) :
    upper = some u ∨ ∃ c, answer = some c ∧ c.ty = u := by
  cases answer with
  | none =>
    cases upper with
    | none => cases h
    | some b => exact .inl h
  | some c =>
    rw [settleOpen] at h
    split at h
    · -- An upper bound from the arguments comes before one from the context.
      cases upper with
      | none => exact .inr ⟨c, rfl, Option.some.inj h⟩
      | some b => exact .inl h
    · exact .inr ⟨c, rfl, Option.some.inj h⟩

/-- A verdict is decided by the arguments, or settled after the context has been asked. -/
theorem cases_of_judge {v : Verdict} (h : (e.judge rank r p).run s = .ok (v, t)) :
    r.argumentVerdict e.store s.guard.isBlocked p = .decided v ∨
      ∃ upper answer, r.argumentVerdict e.store s.guard.isBlocked p = .pending upper ∧
        (e.fromContext? rank p r).run s = .ok (answer, t) ∧ v = settleOpen upper answer := by
  unfold judge at h
  obtain ⟨a, u, hget, h⟩ := exists_of_run_bind h
  cases hget
  dsimp only at h
  cases hv : r.argumentVerdict e.store s.guard.isBlocked p with
  | decided w =>
    rw [hv] at h
    cases h
    exact .inl rfl
  | pending upper =>
    rw [hv] at h
    obtain ⟨answer, u, hcontext, h⟩ := exists_of_run_bind h
    cases h
    exact .inr ⟨upper, answer, rfl, hcontext, rfl⟩

end Engine

end GenericCalls
