import GenericCalls.Proofs.Session.Balance
import Mathlib.Data.List.Forall2

/-! # Computations in step

Two computations are in step when they end alike: with answers that correspond and the same session,
or with the same fault. The second one may run while further calls are being evaluated, which were
let in before all others. It stays in step with the first as long as it is not one of these calls
that is to be evaluated, and their number does not exhaust the guard. -/

namespace GenericCalls

/-! ### Calls let in before all others -/

/-- The guard with `keys` inside that were let in before all others. -/
def RecursionGuard.under (g : RecursionGuard CallId) (keys : List CallId) :
    RecursionGuard CallId :=
  { g with active := g.active ++ keys, depth := g.depth + keys.length }

/-- The session with `keys` being evaluated since before all other calls. -/
def Session.under (s : Session) (keys : List CallId) : Session :=
  { s with guard := { s.guard with evaluating := s.guard.evaluating.under keys } }

namespace RecursionGuard

variable {g h : RecursionGuard CallId} {k : CallId}

@[simp] theorem under_nil (g : RecursionGuard CallId) : g.under [] = g := by
  simp [under]

/-- Further keys inside do not tell when another one enters. -/
def EntersAlike (g : RecursionGuard CallId) (keys : List CallId) (k : CallId) : Prop :=
  (g.under keys).enter k = ((g.enter k).1, (g.enter k).2.under keys)

theorem entersAlike_nil (g : RecursionGuard CallId) (k : CallId) : g.EntersAlike [] k := by
  unfold EntersAlike
  rw [under_nil, under_nil]

theorem entersAlike_of_room {keys : List CallId} (hk : k ∉ keys)
    (hroom : k ∉ g.active → g.depth + keys.length < g.maxDepth) : g.EntersAlike keys k := by
  have hactive : k ∈ g.active ++ keys ↔ k ∈ g.active := by simp [hk]
  unfold EntersAlike enter under
  simp only [hactive]
  by_cases hin : k ∈ g.active
  · rw [if_pos hin, if_pos hin]
  · have hdepth : ¬g.maxDepth ≤ g.depth + keys.length := Nat.not_le.2 (hroom hin)
    have hdepth' : ¬g.maxDepth ≤ g.depth := by omega
    rw [if_neg hin, if_neg hin, if_neg hdepth, if_neg hdepth']
    simp only [List.cons_append, Nat.add_right_comm]

theorem leave?_under (keys : List CallId) (hl : g.leave? k = some h) (hdepth : 0 < g.depth) :
    (g.under keys).leave? k = some (h.under keys) := by
  unfold leave? at hl
  split at hl
  · rename_i hk
    cases hl
    unfold leave? under
    have hmem : k ∈ g.active ++ keys := List.mem_append_left keys hk
    have hsub : g.depth + keys.length - 1 = g.depth - 1 + keys.length := by omega
    simp only [if_pos hmem, List.erase_append_left keys hk, hsub]
  · cases hl

theorem leave?_under_single (k : CallId) (h : g.active = []) :
    (g.under [k]).leave? k = some g := by
  obtain ⟨active, depth, maxDepth, exceeded⟩ := g
  cases h
  simp [leave?, under]

end RecursionGuard

namespace Session

@[simp] theorem under_nil (s : Session) : s.under [] = s := by
  simp [under]

theorem captureArgs_under (s : Session) (keys : List CallId) (ts : List Ty) :
    (s.under keys).captureArgs ts = ((s.captureArgs ts).1, (s.captureArgs ts).2.under keys) := by
  induction ts generalizing s with
  | nil => rfl
  | cons t ts ih =>
    cases t with
    | wild kind b =>
      have hfresh : (s.under keys).freshCapture = (s.captures + 1, s.freshCapture.2.under keys) :=
        rfl
      simp only [captureArgs, hfresh, ih s.freshCapture.2]
      rfl
    | _ => simp only [captureArgs, ih]

theorem capture_under (s : Session) (keys : List CallId) (t : Ty) :
    (s.under keys).capture t = ((s.capture t).1, (s.capture t).2.under keys) := by
  cases t with
  | cls c args => simp only [capture, captureArgs_under]
  | _ => rfl

end Session

namespace Run

variable {α β γ δ : Type} {keys : List CallId} {s : Session}

/-! ### Computations in step -/

/-- The computation `m'` in the session under `keys` ends like `m` does without these calls: with
the same fault, or with an answer that corresponds to that of `m` and the session that `m` leaves,
under `keys`. The calls in use are as before. -/
def InStep (keys : List CallId) (A : α → β → Prop) (m : Run α) (m' : Run β) (s : Session) : Prop :=
  (∃ a b t, m.run s = .ok (a, t) ∧ m'.run (s.under keys) = .ok (b, t.under keys) ∧ A a b ∧
    s.guard.SameUse t.guard) ∨
  ∃ fault, m.run s = .error fault ∧ m'.run (s.under keys) = .error fault

theorem inStep_pure {A : α → β → Prop} {a : α} {b : β} (h : A a b) :
    InStep keys A (pure a) (pure b) s :=
  .inl ⟨a, b, s, rfl, rfl, h, .refl _⟩

theorem inStep_throw {A : α → β → Prop} (fault : Fault) :
    InStep keys A (throw fault) (throw fault) s :=
  .inr ⟨fault, rfl, rfl⟩

theorem inStep_bind {A : α → β → Prop} {B : γ → δ → Prop} {m : Run α} {m' : Run β} {f : α → Run γ}
    {f' : β → Run δ} (hm : InStep keys A m m' s)
    (hf : ∀ a b t, A a b → s.guard.SameUse t.guard → InStep keys B (f a) (f' b) t) :
    InStep keys B (m >>= f) (m' >>= f') s := by
  rcases hm with ⟨a, b, t, h, h', hab, hst⟩ | ⟨fault, h, h'⟩
  · rcases hf a b t hab hst with ⟨c, d, u, k, k', hcd, htu⟩ | ⟨fault, k, k'⟩
    · refine .inl ⟨c, d, u, ?_, ?_, hcd, hst.trans htu⟩
      · rw [run_bind_of_ok h, k]
      · rw [run_bind_of_ok h', k']
    · refine .inr ⟨fault, ?_, ?_⟩
      · rw [run_bind_of_ok h, k]
      · rw [run_bind_of_ok h', k']
  · exact .inr ⟨fault, run_bind_of_error h, run_bind_of_error h'⟩

theorem inStep_capture (t : Ty) : InStep keys Eq (capture t) (capture t) s := by
  refine .inl ⟨(s.capture t).1, (s.capture t).1, (s.capture t).2, rfl, ?_, rfl, ?_⟩
  · show Except.ok ((s.under keys).capture t) = _
    rw [Session.capture_under]
  · rw [Session.guard_capture]
    exact .refl _

theorem InStep.run_eq {m m' : Run α} (h : InStep [] Eq m m' s) : m'.run s = m.run s := by
  rcases h with ⟨a, b, t, h, h', rfl, _⟩ | ⟨fault, h, h'⟩
  · rw [Session.under_nil, Session.under_nil] at h'
    rw [h, h']
  · rw [Session.under_nil] at h'
    rw [h, h']

/-! ### Consulting and evaluating calls -/

theorem run_consulting_fault {outer inner : CallId} {body : Run α} {s : Session} {fault : Fault}
    {g : RecursionGuard CallId} (he : s.guard.context.enter outer = (.entered, g))
    (hbody : body.run { s with guard := ({ s.guard with context := g }).block inner } =
      .error fault) : (consulting outer inner body).run s = .error fault := by
  have hentered : (enter .context outer).run s =
      .ok (.entered, { s with guard := { s.guard with context := g } }) := run_enter he
  unfold consulting
  rw [run_bind_of_ok hentered, if_neg (by simp [Entry.isDenied]),
    run_bind_of_ok (run_modifyGuard _ _), run_bind_of_error hbody]

theorem run_evaluating_fault {call : CallId} {body : Run α} {s : Session} {fault : Fault}
    {g : RecursionGuard CallId} (he : s.guard.evaluating.enter call = (.entered, g))
    (hbody : body.run { s with guard := { s.guard with evaluating := g } } = .error fault) :
    (evaluating call body).run s = .error fault := by
  have hentered : (enter .evaluation call).run s =
      .ok (.entered, { s with guard := { s.guard with evaluating := g } }) := run_enter he
  unfold evaluating
  rw [run_bind_of_ok hentered, if_neg (by simp [Entry.isDenied]),
    run_bind_of_error hbody]

theorem inStep_consulting {m m' : Run α} {outer inner : CallId}
    (hm : ∀ g, s.guard.context.enter outer = (.entered, g) →
      InStep keys Eq m m' { s with guard := ({ s.guard with context := g }).block inner }) :
    InStep keys Eq (consulting outer inner m) (consulting outer inner m') s := by
  rcases he : s.guard.context.enter outer with ⟨r, g⟩
  have he' : (s.under keys).guard.context.enter outer = (r, g) := he
  cases hr : r.isDenied with
  | true =>
    have hsame := RecursionGuard.sameKeys_of_denied he hr
    exact .inl ⟨none, none, _, run_consulting_denied he hr, run_consulting_denied he' hr, rfl,
      rfl, hsame, .refl _⟩
  | false =>
    obtain rfl := RecursionGuard.eq_entered_of_not_denied hr
    rcases hm g he with ⟨a, b, t, h, h', rfl, hst⟩ | ⟨fault, h, h'⟩
    · obtain ⟨g', hleave, hg⟩ := RecursionGuard.leave?_of_entered he hst.context
      have hblocked : t.guard.blocked.erase inner = s.guard.blocked := by
        rw [hst.blocked]
        simp [CallGuard.block]
      exact .inl ⟨some a, some a, _, run_consulting_entered he h hleave,
        run_consulting_entered he' h' hleave, rfl, hblocked, hg, hst.evaluating⟩
    · exact .inr ⟨fault, run_consulting_fault he h, run_consulting_fault he' h'⟩

theorem inStep_evaluating {m m' : Run α} {call : CallId}
    (halike : s.guard.evaluating.EntersAlike keys call)
    (hm : ∀ g, s.guard.evaluating.enter call = (.entered, g) →
      InStep keys Eq m m' { s with guard := { s.guard with evaluating := g } }) :
    InStep keys Eq (evaluating call m) (evaluating call m') s := by
  rcases he : s.guard.evaluating.enter call with ⟨r, g⟩
  have he' : (s.under keys).guard.evaluating.enter call = (r, g.under keys) := by
    have halike : (s.guard.evaluating.under keys).enter call = _ := halike
    rw [he] at halike
    exact halike
  cases hr : r.isDenied with
  | true =>
    have hsame := RecursionGuard.sameKeys_of_denied he hr
    exact .inl ⟨none, none, _, run_evaluating_denied he hr, run_evaluating_denied he' hr, rfl,
      rfl, .refl _, hsame⟩
  | false =>
    obtain rfl := RecursionGuard.eq_entered_of_not_denied hr
    rcases hm g he with ⟨a, b, t, h, h', rfl, hst⟩ | ⟨fault, h, h'⟩
    · obtain ⟨g', hleave, hg⟩ := RecursionGuard.leave?_of_entered he hst.evaluating
      have hdepth : 0 < t.guard.evaluating.depth := by
        have hin : t.guard.evaluating.depth = g.depth := hst.evaluating.depth
        have hentered := (RecursionGuard.enter_eq_entered he).2.2.2.1
        omega
      have hleave' : (t.under keys).guard.evaluating.leave? call = some (g'.under keys) :=
        RecursionGuard.leave?_under keys hleave hdepth
      have hrun' := run_evaluating_entered he' (t := t.under keys) h' hleave'
      exact .inl ⟨some a, some a, _, run_evaluating_entered he h hleave, hrun', rfl, hst.blocked,
        hst.context, hg⟩
    · exact .inr ⟨fault, run_evaluating_fault he h, run_evaluating_fault he' h'⟩

end Run

end GenericCalls
