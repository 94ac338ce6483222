import GenericCalls.Proofs.Session.Balance
import GenericCalls.Proofs.Session.Visits
import GenericCalls.Proofs.Ty.Shift

/-! # Computations in later sessions

A session that has served requests has drawn captures, and a guard of it may have met its limit. A
session is later than another by a number of captures when it has drawn so many more and the same
calls are in use. A computation is carried to a later session by a function on answers when it ends
there alike: with the same fault, or with the answer under this function and a session that is later
by the same number. -/

namespace GenericCalls

/-! ### Guards of sessions -/

/-- The guards of a session count the calls inside, up to the limits of the library. -/
structure CallGuard.Counts (g : CallGuard) : Prop where
  context : g.context.Counts Limits.enclosingCalls
  evaluating : g.evaluating.Counts Limits.evaluatedCalls

namespace RecursionGuard

variable {g h : RecursionGuard CallId} {limit : Nat}

theorem Counts.of_sameKeys (hg : g.Counts limit) (hgh : g.SameKeys h) : h.Counts limit := by
  refine ⟨?_, hgh.maxDepth.trans hg.maxDepth⟩
  rw [hgh.depth, hgh.active, hg.depth]

/-- Guards that count and have no keys inside differ at most in whether a limit was ever met. -/
theorem Counts.sameKeys_of_not_isActive (hg : g.Counts limit) (h : g.isActive = false) :
    (ofMax limit).SameKeys g := by
  have hactive : g.active = [] := by simpa [isActive] using h
  refine ⟨hactive, ?_, hg.maxDepth⟩
  rw [hg.depth, hactive]
  rfl

theorem SameKeys.enter (hgh : g.SameKeys h) (k : CallId) :
    (h.enter k).1 = (g.enter k).1 ∧ (g.enter k).2.SameKeys (h.enter k).2 := by
  unfold RecursionGuard.enter
  rw [hgh.active, hgh.depth, hgh.maxDepth]
  split
  · exact ⟨rfl, hgh⟩
  · split
    · exact ⟨rfl, rfl, rfl, rfl⟩
    · exact ⟨rfl, rfl, rfl, rfl⟩

theorem SameKeys.leave? (hgh : g.SameKeys h) (k : CallId) :
    (∃ g' h', g.leave? k = some g' ∧ h.leave? k = some h' ∧ g'.SameKeys h') ∨
      g.leave? k = none ∧ h.leave? k = none := by
  unfold RecursionGuard.leave?
  rw [hgh.active, hgh.depth]
  split
  · exact .inl ⟨_, _, rfl, rfl, rfl, rfl, hgh.maxDepth⟩
  · exact .inr ⟨rfl, rfl⟩

end RecursionGuard

namespace CallGuard

variable {g h : CallGuard}

theorem counts_new : ({} : CallGuard).Counts :=
  ⟨RecursionGuard.counts_ofMax _, RecursionGuard.counts_ofMax _⟩

theorem Counts.setGate (hg : g.Counts) {w : Gate} {k : RecursionGuard CallId}
    (hk : ∀ {limit : Nat}, (g.gate w).Counts limit → k.Counts limit) : (g.setGate k w).Counts := by
  cases w with
  | context => exact ⟨hk hg.context, hg.evaluating⟩
  | evaluation => exact ⟨hg.context, hk hg.evaluating⟩

theorem Counts.of_sameUse (hg : g.Counts) (hgh : g.SameUse h) : h.Counts :=
  ⟨hg.context.of_sameKeys hgh.context, hg.evaluating.of_sameKeys hgh.evaluating⟩

theorem Counts.sameUse_of_isIdle (hg : g.Counts) (hidle : g.isIdle = true) :
    ({} : CallGuard).SameUse g := by
  simp only [isIdle, Bool.and_eq_true, Bool.not_eq_true', List.isEmpty_iff] at hidle
  obtain ⟨⟨hblocked, hcontext⟩, hevaluating⟩ := hidle
  exact ⟨hblocked, hg.context.sameKeys_of_not_isActive hcontext,
    hg.evaluating.sameKeys_of_not_isActive hevaluating⟩

end CallGuard

/-! ### Later sessions -/

/-- The session `t` has drawn `n` more captures than `s`, and the same calls are in use. -/
structure Session.LaterBy (n : Nat) (s t : Session) : Prop where
  captures : t.captures = s.captures + n
  guard : s.guard.SameUse t.guard

namespace Session

variable {n : Nat} {s t : Session}

theorem captureArgs_laterBy (h : s.LaterBy n t) (ts : List Ty) :
    (t.captureArgs (ts.map (Ty.shift n))).1 = (s.captureArgs ts).1.map (Ty.shift n) ∧
      (s.captureArgs ts).2.LaterBy n (t.captureArgs (ts.map (Ty.shift n))).2 := by
  induction ts generalizing s t with
  | nil => exact ⟨rfl, h⟩
  | cons u ts ih =>
    cases u with
    | wild k b =>
      have hfresh : s.freshCapture.2.LaterBy n t.freshCapture.2 := by
        refine ⟨?_, h.guard⟩
        simp only [freshCapture, h.captures, Nat.add_right_comm]
      obtain ⟨hts, hlater⟩ := ih hfresh
      rw [List.map_cons, Ty.shift_wild]
      refine ⟨?_, hlater⟩
      simp only [captureArgs, hts, List.map_cons, Ty.shift_captured]
      simp only [freshCapture, h.captures, Nat.add_right_comm]
    | captured i k b =>
      obtain ⟨hts, hlater⟩ := ih h
      rw [List.map_cons, Ty.shift_captured]
      exact ⟨by simp only [captureArgs, hts, List.map_cons, Ty.shift_captured], hlater⟩
    | _ =>
      obtain ⟨hts, hlater⟩ := ih h
      exact ⟨congrArg (_ :: ·) hts, hlater⟩

theorem capture_laterBy (h : s.LaterBy n t) (u : Ty) :
    (t.capture (u.shift n)).1 = (s.capture u).1.shift n ∧
      (s.capture u).2.LaterBy n (t.capture (u.shift n)).2 := by
  cases u with
  | cls c args =>
    obtain ⟨hargs, hlater⟩ := captureArgs_laterBy h args
    rw [Ty.shift, Ty.shiftAll_eq_map]
    refine ⟨?_, hlater⟩
    simp only [capture, hargs, Ty.shift, Ty.shiftAll_eq_map]
  | wild k b => cases b <;> exact ⟨rfl, h⟩
  | captured i k b => cases b <;> exact ⟨rfl, h⟩
  | _ => exact ⟨rfl, h⟩

end Session

/-! ### Computations -/

namespace Run

variable {α β γ δ : Type} {n : Nat}

/-- In every session later by `n` the computation `m'` ends like `m`: with the same fault, or with
the answer of `m` under `f`, and with a session later by `n`. -/
def Later (n : Nat) (f : α → β) (m : Run α) (m' : Run β) : Prop :=
  ∀ s s', s.LaterBy n s' →
    (∃ a t t', m.run s = .ok (a, t) ∧ m'.run s' = .ok (f a, t') ∧ t.LaterBy n t') ∨
    ∃ fault, m.run s = .error fault ∧ m'.run s' = .error fault

theorem later_pure {f : α → β} {a : α} {b : β} (h : f a = b) :
    Later n f (pure a) (pure b) :=
  fun s s' hs => .inl ⟨a, s, s', rfl, by rw [h]; rfl, hs⟩

theorem later_throw (f : α → β) (fault : Fault) : Later n f (throw fault) (throw fault) :=
  fun _ _ _ => .inr ⟨fault, rfl, rfl⟩

theorem later_bind {f : α → β} {g : γ → δ} {m : Run α} {m' : Run β} {k : α → Run γ}
    {k' : β → Run δ} (hm : Later n f m m') (hk : ∀ a, Later n g (k a) (k' (f a))) :
    Later n g (m >>= k) (m' >>= k') := by
  intro s s' hs
  rcases hm s s' hs with ⟨a, t, t', h, h', ht⟩ | ⟨fault, h, h'⟩
  · rw [run_bind_of_ok h, run_bind_of_ok h']
    exact hk a t t' ht
  · exact .inr ⟨fault, run_bind_of_error h, run_bind_of_error h'⟩

theorem later_capture (u : Ty) : Later n (Ty.shift n) (capture u) (capture (u.shift n)) := by
  intro s s' hs
  obtain ⟨hu, hlater⟩ := Session.capture_laterBy hs u
  exact .inl ⟨(s.capture u).1, _, _, rfl, congrArg Except.ok (Prod.ext hu rfl), hlater⟩

theorem later_isBlocked (call : CallId) : Later n id (isBlocked call) (isBlocked call) := by
  intro s s' hs
  refine .inl ⟨_, s, s', rfl, ?_, hs⟩
  rw [id_eq, ← hs.guard.isBlocked_eq]
  rfl

theorem later_get {f : α → β} {k : Session → Run α} {k' : Session → Run β}
    (hk : ∀ s s', s.LaterBy n s' → Later n f (k s) (k' s')) :
    Later n f (get >>= k) (get >>= k') := by
  intro s s' hs
  rw [run_bind_of_ok (a := s) (t := s) rfl, run_bind_of_ok (a := s') (t := s') rfl]
  exact hk s s' hs s s' hs

theorem later_modifyGuard {F : CallGuard → CallGuard}
    (hF : ∀ g h : CallGuard, g.SameUse h → (F g).SameUse (F h)) :
    Later n id (modifyGuard F) (modifyGuard F) :=
  fun s s' hs => .inl ⟨(), _, _, run_modifyGuard F s, run_modifyGuard F s', hs.captures,
    hF s.guard s'.guard hs.guard⟩

/-! ### Consulting and evaluating calls -/

theorem later_enter (w : Gate) (call : CallId) : Later n id (enter w call) (enter w call) := by
  intro s s' hs
  have henter := (hs.guard.gate w).enter call
  rcases he : (s.guard.gate w).enter call with ⟨r, g⟩
  rcases he' : (s'.guard.gate w).enter call with ⟨r', g'⟩
  rw [he, he'] at henter
  obtain ⟨rfl, hkeys⟩ := henter
  exact .inl ⟨r', _, _, run_enter he, run_enter he', hs.captures, hs.guard.setGate hkeys w⟩

theorem later_leave (w : Gate) (call : CallId) : Later n id (leave w call) (leave w call) := by
  intro s s' hs
  rcases (hs.guard.gate w).leave? call with ⟨g, g', hl, hl', hkeys⟩ | ⟨hl, hl'⟩
  · exact .inl ⟨(), _, _, run_leave hl, run_leave hl', hs.captures, hs.guard.setGate hkeys w⟩
  · exact .inr ⟨.leftUnentered call, run_leave_of_none hl, run_leave_of_none hl'⟩

theorem later_consulting {f : α → β} {m : Run α} {m' : Run β} (hm : Later n f m m')
    (outer inner : CallId) :
    Later n (Option.map f) (consulting outer inner m) (consulting outer inner m') := by
  -- The guards have the same calls inside, so both computations are let in or neither is.
  refine later_bind (later_enter .context outer) fun entry => ?_
  cases hdenied : entry.isDenied with
  | true =>
    simp only [id_eq, hdenied, if_true]
    exact later_pure rfl
  | false =>
    simp only [id_eq, hdenied]
    refine later_bind (later_modifyGuard fun g h hgh => ?_) fun _ => ?_
    · exact ⟨congrArg (inner :: ·) hgh.blocked, hgh.context, hgh.evaluating⟩
    refine later_bind hm fun a => ?_
    refine later_bind (later_modifyGuard fun g h hgh => ?_) fun _ => ?_
    · exact ⟨congrArg (List.erase · inner) hgh.blocked, hgh.context, hgh.evaluating⟩
    exact later_bind (later_leave .context outer) fun _ => later_pure rfl

theorem later_evaluating {f : α → β} {m : Run α} {m' : Run β} (hm : Later n f m m')
    (call : CallId) : Later n (Option.map f) (evaluating call m) (evaluating call m') := by
  refine later_bind (later_enter .evaluation call) fun entry => ?_
  cases hdenied : entry.isDenied with
  | true =>
    simp only [id_eq, hdenied, if_true]
    exact later_pure rfl
  | false =>
    simp only [id_eq, hdenied]
    exact later_bind hm fun a =>
      later_bind (later_leave .evaluation call) fun _ => later_pure rfl

/-! ### Answers -/

/-- What a computation answers in a later session, and the session that it leaves. -/
theorem Later.settle {f : α → β} {m : Run α} {m' : Run β} (h : Later n f m m') {s s' : Session}
    (hs : s.LaterBy n s') (d : α) :
    (settle (f d) m' s').1 = f (settle d m s).1 ∧
      (settle d m s).2.LaterBy n (settle (f d) m' s').2 := by
  unfold Run.settle
  rcases h s s' hs with ⟨a, t, t', h, h', ht⟩ | ⟨fault, h, h'⟩
  · rw [h, h']
    exact ⟨rfl, ht⟩
  · rw [h, h']
    exact ⟨rfl, hs⟩

end Run

end GenericCalls
