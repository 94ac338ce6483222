import GenericCalls.Inference.Run

/-! # Calls in use across a computation

Inference enters the guards of a session and blocks calls only around computations that it runs in
between, so that each computation ends with the calls in use with which it began. The relation
`Run.Concur` states this of two computations at once: both end without fault, with the same answer
and session, and the calls in use are as before. Taken of one computation twice it says that the
computation is balanced; taken of two it compares computations that differ in what they would do
when nested too deep. -/

namespace GenericCalls

/-! ### Sameness of calls in use -/

/-- Two states of a guard with the same keys inside and the same limit. -/
structure RecursionGuard.SameKeys (g h : RecursionGuard CallId) : Prop where
  active : h.active = g.active
  depth : h.depth = g.depth
  maxDepth : h.maxDepth = g.maxDepth

/-- Two states of the calls in use that differ at most in whether a limit was ever met. -/
structure CallGuard.SameUse (g h : CallGuard) : Prop where
  blocked : h.blocked = g.blocked
  context : g.context.SameKeys h.context
  evaluating : g.evaluating.SameKeys h.evaluating

theorem RecursionGuard.SameKeys.refl (g : RecursionGuard CallId) : g.SameKeys g := ⟨rfl, rfl, rfl⟩

theorem RecursionGuard.SameKeys.trans {f g h : RecursionGuard CallId} (hfg : f.SameKeys g)
    (hgh : g.SameKeys h) : f.SameKeys h :=
  ⟨hgh.active.trans hfg.active, hgh.depth.trans hfg.depth, hgh.maxDepth.trans hfg.maxDepth⟩

theorem RecursionGuard.SameKeys.room_eq {g h : RecursionGuard CallId} (hgh : g.SameKeys h) :
    h.room = g.room := by
  unfold RecursionGuard.room
  rw [hgh.maxDepth, hgh.depth]

theorem CallGuard.SameUse.refl (g : CallGuard) : g.SameUse g := ⟨rfl, .refl _, .refl _⟩

theorem CallGuard.SameUse.trans {f g h : CallGuard} (hfg : f.SameUse g) (hgh : g.SameUse h) :
    f.SameUse h :=
  ⟨hgh.blocked.trans hfg.blocked, hfg.context.trans hgh.context,
    hfg.evaluating.trans hgh.evaluating⟩

theorem CallGuard.SameUse.gate {g h : CallGuard} (hgh : g.SameUse h) (w : Gate) :
    (g.gate w).SameKeys (h.gate w) := by
  cases w with
  | context => exact hgh.context
  | evaluation => exact hgh.evaluating

theorem CallGuard.SameUse.setGate {g h : CallGuard} {g' h' : RecursionGuard CallId}
    (hgh : g.SameUse h) (hkeys : g'.SameKeys h') (w : Gate) :
    (g.setGate g' w).SameUse (h.setGate h' w) := by
  cases w with
  | context => exact ⟨hgh.blocked, hkeys, hgh.evaluating⟩
  | evaluation => exact ⟨hgh.blocked, hgh.context, hkeys⟩

theorem CallGuard.SameUse.isIdle_eq {g h : CallGuard} (hgh : g.SameUse h) :
    h.isIdle = g.isIdle := by
  unfold CallGuard.isIdle RecursionGuard.isActive
  rw [hgh.blocked, hgh.context.active, hgh.evaluating.active]

theorem CallGuard.SameUse.isBlocked_eq {g h : CallGuard} (hgh : g.SameUse h) :
    h.isBlocked = g.isBlocked := by
  funext call
  unfold CallGuard.isBlocked
  rw [hgh.blocked]

theorem CallGuard.SameUse.nesting_eq {s t : Session} (hst : s.guard.SameUse t.guard) :
    t.nesting = s.nesting := by
  unfold Session.nesting
  rw [hst.evaluating.room_eq, hst.context.room_eq]

/-- No call is inside one of the guards twice. -/
structure CallGuard.Distinct (g : CallGuard) : Prop where
  context : g.context.active.Nodup
  evaluating : g.evaluating.active.Nodup

instance : DecidablePred CallGuard.Distinct := fun g =>
  decidable_of_iff (g.context.active.Nodup ∧ g.evaluating.active.Nodup)
    ⟨fun h => ⟨h.1, h.2⟩, fun h => ⟨h.context, h.evaluating⟩⟩

theorem CallGuard.distinct_of_isIdle {g : CallGuard} (h : g.isIdle = true) : g.Distinct := by
  unfold CallGuard.isIdle RecursionGuard.isActive at h
  simp only [Bool.and_eq_true, Bool.not_not, List.isEmpty_iff] at h
  refine ⟨?_, ?_⟩
  · rw [h.1.2]
    exact List.nodup_nil
  · rw [h.2]
    exact List.nodup_nil

/-! ### Entering a guard -/

namespace RecursionGuard

theorem sameKeys_of_denied {g h : RecursionGuard CallId} {k : CallId} {r : Entry}
    (he : g.enter k = (r, h)) (hr : r.isDenied = true) : g.SameKeys h := by
  unfold enter at he
  split at he
  · obtain ⟨-, rfl⟩ := Prod.mk.inj he
    exact .refl g
  · split at he
    · obtain ⟨-, rfl⟩ := Prod.mk.inj he
      exact ⟨rfl, rfl, rfl⟩
    · obtain ⟨rfl, -⟩ := Prod.mk.inj he
      cases hr

theorem eq_entered_of_not_denied {r : Entry} (hr : r.isDenied = false) : r = .entered := by
  cases r with
  | entered => rfl
  | cycle => cases hr
  | tooDeep => cases hr

theorem enter_eq_entered {g h : RecursionGuard CallId} {k : CallId}
    (he : g.enter k = (.entered, h)) :
    k ∉ g.active ∧ g.depth < g.maxDepth ∧ h.active = k :: g.active ∧ h.depth = g.depth + 1 ∧
      h.maxDepth = g.maxDepth := by
  unfold enter at he
  split at he
  · cases (Prod.mk.inj he).1
  · rename_i hk
    split at he
    · cases (Prod.mk.inj he).1
    · rename_i hd
      obtain ⟨-, rfl⟩ := Prod.mk.inj he
      exact ⟨hk, by omega, rfl, rfl, rfl⟩

theorem room_of_entered {g h : RecursionGuard CallId} {k : CallId}
    (he : g.enter k = (.entered, h)) : g.room = h.room + 1 := by
  obtain ⟨-, hd, -, hdepth, hmax⟩ := enter_eq_entered he
  unfold room
  rw [hdepth, hmax]
  omega

theorem leave?_of_entered {g h i : RecursionGuard CallId} {k : CallId}
    (he : g.enter k = (.entered, h)) (hi : h.SameKeys i) :
    ∃ j, i.leave? k = some j ∧ g.SameKeys j := by
  obtain ⟨-, -, hactive, hdepth, hmax⟩ := enter_eq_entered he
  have hki : i.active = k :: g.active := hi.active.trans hactive
  have hdi : i.depth = g.depth + 1 := hi.depth.trans hdepth
  have hmi : i.maxDepth = g.maxDepth := hi.maxDepth.trans hmax
  refine ⟨{ i with active := i.active.erase k, depth := i.depth - 1 }, ?_, ?_, ?_, hmi⟩
  · simp [leave?, hki]
  · simp [hki]
  · simp [hdi]

end RecursionGuard

/-! ### Concurring computations -/

/-- A property of the calls in use that is kept when a call is blocked or let into a guard. -/
structure CallGuard.Lasting (I : CallGuard → Prop) : Prop where
  same : ∀ {g h : CallGuard}, g.SameUse h → I g → I h
  block : ∀ {g : CallGuard} (call : CallId), I g → I (g.block call)
  context : ∀ {g : CallGuard} {call : CallId} {h : RecursionGuard CallId},
    g.context.enter call = (.entered, h) → I g → I { g with context := h }
  evaluating : ∀ {g : CallGuard} {call : CallId} {h : RecursionGuard CallId},
    g.evaluating.enter call = (.entered, h) → I g → I { g with evaluating := h }

/-- A session has the property `I`, and rankings may be nested in it at most one deeper than `n`. -/
structure Session.Ready (I : CallGuard → Prop) (n : Nat) (s : Session) : Prop where
  holds : I s.guard
  nesting_le : s.nesting ≤ n + 1

theorem Session.Ready.after {I : CallGuard → Prop} {n : Nat} {s t : Session} (hs : s.Ready I n)
    (hI : CallGuard.Lasting I) (hst : s.guard.SameUse t.guard) : t.Ready I n := by
  refine ⟨hI.same hst hs.holds, ?_⟩
  rw [hst.nesting_eq]
  exact hs.nesting_le

namespace Run

variable {α β : Type}

/-- Two computations end without fault, with the same answer and session, and leave the calls in use
as they were. -/
def Concur (m m' : Run α) (s : Session) : Prop :=
  ∃ a t, m.run s = .ok (a, t) ∧ m'.run s = .ok (a, t) ∧ s.guard.SameUse t.guard

theorem run_bind_of_ok {m : Run α} {f : α → Run β} {s t : Session} {a : α}
    (h : m.run s = .ok (a, t)) : (m >>= f).run s = (f a).run t := by
  rw [StateT.run_bind, h]
  rfl

theorem run_bind_of_error {m : Run α} {f : α → Run β} {s : Session} {fault : Fault}
    (h : m.run s = .error fault) : (m >>= f).run s = .error fault := by
  rw [StateT.run_bind, h]
  rfl

theorem exists_of_run_bind {m : Run α} {f : α → Run β} {s : Session} {r : β × Session}
    (h : (m >>= f).run s = .ok r) : ∃ a t, m.run s = .ok (a, t) ∧ (f a).run t = .ok r := by
  rw [StateT.run_bind] at h
  cases hm : m.run s with
  | error fault =>
    rw [hm] at h
    cases h
  | ok b =>
    rw [hm] at h
    exact ⟨b.1, b.2, rfl, h⟩

theorem settle_eq {m : Run α} {s : Session} {r : α × Session} (d : α) (h : m.run s = .ok r) :
    settle d m s = r := by
  unfold settle
  rw [h]

theorem Concur.eq {m m' : Run α} {s : Session} (h : Concur m m' s) : m.run s = m'.run s := by
  obtain ⟨a, t, hm, hm', -⟩ := h
  rw [hm, hm']

theorem Concur.run_right {m m' : Run α} {s : Session} (h : Concur m m' s) (d : α) :
    m'.run s = .ok (settle d m s) := by
  obtain ⟨a, t, hm, hm', -⟩ := h
  rw [settle_eq d hm, hm']

/-- A computation ends without fault with the result `r` and gives back the calls in use. -/
structure Balanced (m : Run α) (s : Session) (r : α × Session) : Prop where
  ends : m.run s = .ok r
  sameUse : s.guard.SameUse r.2.guard
  idle : r.2.guard.isIdle = s.guard.isIdle

theorem balanced_settle {m m' : Run α} {s : Session} (d : α) (h : Concur m m' s) :
    Balanced m' s (settle d m s) := by
  obtain ⟨a, t, hm, hm', hst⟩ := h
  rw [settle_eq d hm]
  exact ⟨hm', hst, hst.isIdle_eq⟩

theorem concur_pure (a : α) (s : Session) : Concur (pure a) (pure a) s :=
  ⟨a, s, rfl, rfl, .refl _⟩

theorem concur_bind {m m' : Run α} {f f' : α → Run β} {s : Session} (hm : Concur m m' s)
    (hf : ∀ a t, s.guard.SameUse t.guard → Concur (f a) (f' a) t) :
    Concur (m >>= f) (m' >>= f') s := by
  obtain ⟨a, t, h, h', hst⟩ := hm
  obtain ⟨b, u, k, k', htu⟩ := hf a t hst
  refine ⟨b, u, ?_, ?_, hst.trans htu⟩
  · rw [run_bind_of_ok h, k]
  · rw [run_bind_of_ok h', k']

theorem concur_capture (t : Ty) (s : Session) : Concur (capture t) (capture t) s := by
  refine ⟨(s.capture t).1, (s.capture t).2, rfl, rfl, ?_⟩
  rw [Session.guard_capture]
  exact .refl _

theorem concur_isBlocked (call : CallId) (s : Session) :
    Concur (isBlocked call) (isBlocked call) s :=
  ⟨s.guard.isBlocked call, s, rfl, rfl, .refl _⟩

/-! ### Consulting and evaluating calls -/

theorem run_enter {w : Gate} {s : Session} {call : CallId} {r : Entry} {g : RecursionGuard CallId}
    (he : (s.guard.gate w).enter call = (r, g)) :
    (enter w call).run s = .ok (r, { s with guard := s.guard.setGate g w }) := by
  unfold enter
  rw [StateT.run_modifyGet]
  simp only [he]
  rfl

theorem run_modifyGuard (f : CallGuard → CallGuard) (s : Session) :
    (modifyGuard f).run s = .ok ((), { s with guard := f s.guard }) := rfl

theorem run_leave {w : Gate} {s : Session} {call : CallId} {g : RecursionGuard CallId}
    (hl : (s.guard.gate w).leave? call = some g) :
    (leave w call).run s = .ok ((), { s with guard := s.guard.setGate g w }) := by
  unfold leave
  rw [run_bind_of_ok (a := s) (t := s) rfl, hl]
  rfl

theorem run_leave_of_none {w : Gate} {s : Session} {call : CallId}
    (hl : (s.guard.gate w).leave? call = none) :
    (leave w call).run s = .error (.leftUnentered call) := by
  unfold leave
  rw [run_bind_of_ok (a := s) (t := s) rfl, hl]
  rfl

theorem run_consulting_denied {outer inner : CallId} {body : Run α} {s : Session} {r : Entry}
    {g : RecursionGuard CallId} (he : s.guard.context.enter outer = (r, g))
    (hr : r.isDenied = true) :
    (consulting outer inner body).run s =
      .ok (none, { s with guard := { s.guard with context := g } }) := by
  have hdenied : (enter .context outer).run s =
      .ok (r, { s with guard := { s.guard with context := g } }) := run_enter he
  unfold consulting
  rw [run_bind_of_ok hdenied, if_pos hr]
  rfl

theorem run_consulting_entered {outer inner : CallId} {body : Run α} {s t : Session} {a : α}
    {g h : RecursionGuard CallId} (he : s.guard.context.enter outer = (.entered, g))
    (hbody : body.run { s with guard := ({ s.guard with context := g }).block inner } = .ok (a, t))
    (hl : t.guard.context.leave? outer = some h) :
    (consulting outer inner body).run s =
      .ok (some a, { t with guard := { t.guard.unblock inner with context := h } }) := by
  let unblocked : Session := { t with guard := t.guard.unblock inner }
  have hleave : (unblocked.guard.gate .context).leave? outer = some h := hl
  have hentered : (enter .context outer).run s =
      .ok (.entered, { s with guard := { s.guard with context := g } }) := run_enter he
  unfold consulting
  rw [run_bind_of_ok hentered, if_neg (by simp [Entry.isDenied]),
    run_bind_of_ok (run_modifyGuard _ _), run_bind_of_ok hbody,
    run_bind_of_ok (run_modifyGuard _ _), run_bind_of_ok (run_leave hleave)]
  rfl

theorem run_evaluating_denied {call : CallId} {body : Run α} {s : Session} {r : Entry}
    {g : RecursionGuard CallId} (he : s.guard.evaluating.enter call = (r, g))
    (hr : r.isDenied = true) :
    (evaluating call body).run s =
      .ok (none, { s with guard := { s.guard with evaluating := g } }) := by
  have hdenied : (enter .evaluation call).run s =
      .ok (r, { s with guard := { s.guard with evaluating := g } }) := run_enter he
  unfold evaluating
  rw [run_bind_of_ok hdenied, if_pos hr]
  rfl

theorem run_evaluating_entered {call : CallId} {body : Run α} {s t : Session} {a : α}
    {g h : RecursionGuard CallId} (he : s.guard.evaluating.enter call = (.entered, g))
    (hbody : body.run { s with guard := { s.guard with evaluating := g } } = .ok (a, t))
    (hl : t.guard.evaluating.leave? call = some h) :
    (evaluating call body).run s =
      .ok (some a, { t with guard := { t.guard with evaluating := h } }) := by
  have hentered : (enter .evaluation call).run s =
      .ok (.entered, { s with guard := { s.guard with evaluating := g } }) := run_enter he
  have hleave : (t.guard.gate .evaluation).leave? call = some h := hl
  unfold evaluating
  rw [run_bind_of_ok hentered, if_neg (by simp [Entry.isDenied]),
    run_bind_of_ok hbody, run_bind_of_ok (run_leave hleave)]
  rfl

theorem exists_run_of_consulting {outer inner : CallId} {body : Run α} {s t : Session} {a : α}
    (h : (consulting outer inner body).run s = .ok (some a, t)) :
    ∃ u v, body.run u = .ok (a, v) := by
  unfold consulting at h
  obtain ⟨r, u, _, h⟩ := exists_of_run_bind h
  split at h
  · cases h
  · obtain ⟨_, v, _, h⟩ := exists_of_run_bind h
    obtain ⟨b, w, hb, h⟩ := exists_of_run_bind h
    obtain ⟨_, x, _, h⟩ := exists_of_run_bind h
    obtain ⟨_, y, _, h⟩ := exists_of_run_bind h
    cases h
    exact ⟨v, w, hb⟩

theorem exists_run_of_evaluating {call : CallId} {body : Run α} {s t : Session} {a : α}
    (h : (evaluating call body).run s = .ok (some a, t)) : ∃ u v, body.run u = .ok (a, v) := by
  unfold evaluating at h
  obtain ⟨r, u, _, h⟩ := exists_of_run_bind h
  split at h
  · cases h
  · obtain ⟨b, v, hb, h⟩ := exists_of_run_bind h
    obtain ⟨_, w, _, h⟩ := exists_of_run_bind h
    cases h
    exact ⟨u, v, hb⟩

/-- Two ways to run something for each call concur in all sessions that have the property `I` and
room for rankings nested `n` deep at most. -/
def ConcurWithin (I : CallGuard → Prop) (n : Nat) (m m' : CallId → Run α) : Prop :=
  ∀ call s, I s.guard → s.nesting ≤ n → Concur (m call) (m' call) s

variable {I : CallGuard → Prop} {n : Nat} {m m' : CallId → Run α} {s : Session}

theorem concur_consulting (hI : CallGuard.Lasting I) (hm : ConcurWithin I n m m')
    (outer inner : CallId) (hs : s.Ready I n) :
    Concur (consulting outer inner (m outer)) (consulting outer inner (m' outer)) s := by
  rcases he : s.guard.context.enter outer with ⟨r, g⟩
  cases hr : r.isDenied with
  | true =>
    have hsame := RecursionGuard.sameKeys_of_denied he hr
    exact ⟨none, _, run_consulting_denied he hr, run_consulting_denied he hr, rfl, hsame, .refl _⟩
  | false =>
    obtain rfl := RecursionGuard.eq_entered_of_not_denied hr
    let inside : Session := { s with guard := ({ s.guard with context := g }).block inner }
    -- the call that was let in leaves room for one call less
    have hroom := RecursionGuard.room_of_entered he
    have hinside : inside.nesting ≤ n := by
      have hin : inside.nesting = 1 + s.guard.evaluating.room + g.room := rfl
      have hn := hs.nesting_le
      unfold Session.nesting at hn
      omega
    obtain ⟨a, t, h, h', hst⟩ := hm outer inside (hI.block inner (hI.context he hs.holds)) hinside
    obtain ⟨g', hleave, hg⟩ := RecursionGuard.leave?_of_entered he hst.context
    have hblocked : t.guard.blocked.erase inner = s.guard.blocked := by
      rw [hst.blocked]
      simp [inside, CallGuard.block]
    exact ⟨some a, _, run_consulting_entered he h hleave, run_consulting_entered he h' hleave,
      hblocked, hg, hst.evaluating⟩

theorem concur_evaluating (hI : CallGuard.Lasting I) (hm : ConcurWithin I n m m') (call : CallId)
    (hs : s.Ready I n) :
    Concur (evaluating call (m call)) (evaluating call (m' call)) s := by
  rcases he : s.guard.evaluating.enter call with ⟨r, g⟩
  cases hr : r.isDenied with
  | true =>
    have hsame := RecursionGuard.sameKeys_of_denied he hr
    exact ⟨none, _, run_evaluating_denied he hr, run_evaluating_denied he hr, rfl, .refl _, hsame⟩
  | false =>
    obtain rfl := RecursionGuard.eq_entered_of_not_denied hr
    let inside : Session := { s with guard := { s.guard with evaluating := g } }
    have hroom := RecursionGuard.room_of_entered he
    have hinside : inside.nesting ≤ n := by
      have hin : inside.nesting = 1 + g.room + s.guard.context.room := rfl
      have hn := hs.nesting_le
      unfold Session.nesting at hn
      omega
    obtain ⟨a, t, h, h', hst⟩ := hm call inside (hI.evaluating he hs.holds) hinside
    obtain ⟨g', hleave, hg⟩ := RecursionGuard.leave?_of_entered he hst.evaluating
    exact ⟨some a, _, run_evaluating_entered he h hleave, run_evaluating_entered he h' hleave,
      hst.blocked, hst.context, hg⟩

end Run

end GenericCalls
