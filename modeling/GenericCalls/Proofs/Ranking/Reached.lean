import GenericCalls.Proofs.Ranking.Later

/-! # Sessions that are reached

A new session is used by one engine after another: it serves requests, draws captures, blocks calls,
and lets calls in and out at its gates. In every session that is reached so both gates count the
calls inside, up to their limits. Therefore a session that is reached and has no call in use answers
like a new one, up to the captures that it has drawn. -/

namespace GenericCalls

inductive Service where
  | rankCall (call : CallId)
  | rankSite (site : CallSite)
  | callType (call : CallId)
  | infer (r : Request)
  | inferParam (r : Request) (p : ParamId)

def Engine.serve (e : Engine) : Service → Session → Session
  | .rankCall call, s => (e.rankCall call s).2
  | .rankSite site, s => (e.rankSite site s).2
  | .callType call, s => (e.callType call s).2
  | .infer r, s => (e.infer r s).2
  | .inferParam r p, s => (e.inferParam r p s).2

theorem Engine.sameUse_serve (e : Engine) (d : Service) (s : Session) :
    s.guard.SameUse (e.serve d s).guard := by
  cases d with
  | rankCall call => exact (balanced_rankCall e s 0 call).sameUse
  | rankSite site => exact (balanced_rankSite e s 0 site).sameUse
  | callType call => exact (balanced_callType e s 0 call).sameUse
  | infer r => exact (balanced_infer e s 0 r).sameUse
  | inferParam r p =>
    obtain ⟨v, h, -⟩ := balanced_inferParam e s 0 r p
    exact h.sameUse

namespace Session

/-- The session is reached from a new one, by whatever engines use it. -/
inductive Reached : Session → Prop where
  | new : Reached {}
  | serve {s : Session} (e : Engine) (d : Service) : Reached s → Reached (e.serve d s)
  | freshCapture {s : Session} : Reached s → Reached s.freshCapture.2
  | capture {s : Session} (t : Ty) : Reached s → Reached (s.capture t).2
  | block {s : Session} (call : CallId) : Reached s → Reached { s with guard := s.guard.block call }
  | unblock {s : Session} (call : CallId) :
      Reached s → Reached { s with guard := s.guard.unblock call }
  | enter {s : Session} (w : Gate) (call : CallId) :
      Reached s → Reached { s with guard := s.guard.setGate ((s.guard.gate w).enter call).2 w }
  | leave {s : Session} (w : Gate) (call : CallId) {g : RecursionGuard CallId} :
      Reached s → (s.guard.gate w).leave? call = some g →
      Reached { s with guard := s.guard.setGate g w }

variable {s : Session}

theorem Reached.counts (h : s.Reached) : s.guard.Counts := by
  induction h with
  | new => exact CallGuard.counts_new
  | serve e d _ ih => exact ih.of_sameUse (e.sameUse_serve d _)
  | freshCapture _ ih => exact ih
  | capture t _ ih =>
    rw [guard_capture]
    exact ih
  | block call _ ih => exact ⟨ih.context, ih.evaluating⟩
  | unblock call _ ih => exact ⟨ih.context, ih.evaluating⟩
  | enter w call _ ih => exact ih.setGate fun hg => hg.enter call
  | leave w call _ hl ih => exact ih.setGate fun hg => hg.leave? hl

/-- What a session without calls in use was asked before does not tell: further requests are
answered in it as if each had a session of its own, with the captures numbered through. -/
theorem Reached.askAll_eq (h : s.Reached) {e : Engine} (he : e.captureFree = true)
    (hidle : s.guard.isIdle = true) (qs : List Engine.Query) :
    e.askAll qs s = e.askApart qs s.captures :=
  Engine.askAll_eq_askApart he h.counts hidle qs

end Session

end GenericCalls
