import GenericCalls.Match.Basic

/-! # Matching a class applied to parameters

When a class applied to type parameters is matched against a type of the same class, each parameter
that stands in one place only is equated with the type argument in this place, as a raw type erases
it and a type with too many or too few arguments says nothing. -/

namespace GenericCalls.Store

variable {s : Store} {target : ParamId}

/-! ### One place -/

theorem matchWithin_param (s : Store) (target q : ParamId) (n : Nat) (t : Ty) :
    s.matchWithin target (n + 1) (.param q) t .exactly 1 = some
      (if q = target then
        if t.reopen.isNull || t.reopen.isUnknown then .noInfo else .found ⟨t.reopen, .exactly⟩
      else .noInfo) := by
  unfold matchWithin matchStep
  by_cases hq : q = target
  · have hdeep : (t.reopen.isWild && decide (Limits.captureDepth ≤ 1)) = false := by
      rw [show decide (Limits.captureDepth ≤ 1) = false from rfl, Bool.and_false]
    have hparam : (Ty.param q).isParam target = true := beq_iff_eq.2 hq
    simp only [hparam, hdeep, if_true, if_pos hq]
    cases t.reopen.isNull || t.reopen.isUnknown <;> rfl
  · have hparam : ¬(Ty.param q).isParam target = true := fun h => hq (beq_iff_eq.1 h)
    rw [if_neg hq]
    simp only [hparam]
    rfl

theorem isNull_or_isUnknown_reopen (t : Ty) :
    (t.reopen.isNull || t.reopen.isUnknown) = (t.isNull || t.isUnknown) := by
  cases t <;> rfl

theorem promote_of_stated {c : ClassId} {i : Nat} {t : Ty} (h : ∀ k, t ≠ .wild k none) :
    s.promote c i t = t := by
  cases t with
  | wild k b =>
    cases b with
    | none => exact absurd rfl (h k)
    | some b => rfl
  | _ => rfl

/-! ### All places -/

theorem matchArgs_of_not_mem {n : Nat} {qs : List ParamId} (ts : List Ty)
    (captured : Option Constraint) (h : target ∉ qs) :
    matchArgs (fun p t => s.matchWithin target (n + 1) p t .exactly 1) captured
        ((qs.map .param).zip ts) =
      some ((captured.map MatchResult.found).getD .noInfo) := by
  induction qs generalizing ts with
  | nil => rfl
  | cons q qs ih =>
    cases ts with
    | nil => rfl
    | cons t ts =>
      rw [List.mem_cons, not_or] at h
      rw [List.map_cons, List.zip_cons_cons, matchArgs, matchWithin_param, if_neg (Ne.symm h.1)]
      exact ih ts h.2

theorem matchArgs_of_mem {n : Nat} {qs : List ParamId} {ts : List Ty} {t : Ty}
    (honce : qs.count target = 1) (hmem : (target, t) ∈ qs.zip ts)
    (hknown : (t.isNull || t.isUnknown) = false) :
    matchArgs (fun p t => s.matchWithin target (n + 1) p t .exactly 1) none
        ((qs.map .param).zip ts) = some (.found ⟨t.reopen, .exactly⟩) := by
  induction qs generalizing ts with
  | nil => cases hmem
  | cons q qs ih =>
    cases ts with
    | nil => cases hmem
    | cons u ts =>
      rw [List.map_cons, List.zip_cons_cons, matchArgs, matchWithin_param]
      rw [List.zip_cons_cons, List.mem_cons] at hmem
      by_cases hq : q = target
      · -- The target stands here, and nowhere in the rest.
        subst hq
        have habsent : q ∉ qs := by
          rw [List.count_cons_self] at honce
          exact List.count_eq_zero.1 (Nat.succ.inj honce)
        have hu : t = u := by
          rcases hmem with heq | hrest
          · cases heq
            rfl
          · exact absurd (List.of_mem_zip hrest).1 habsent
        subst hu
        rw [isNull_or_isUnknown_reopen, hknown, if_pos rfl]
        simp only [Bool.false_eq_true, if_false]
        split
        · exact matchArgs_of_not_mem ts _ habsent
        · rfl
      · rw [if_neg hq]
        rw [List.count_cons_of_ne hq] at honce
        refine ih honce (hmem.resolve_left ?_)
        intro heq
        cases heq
        exact hq rfl

/-! ### A class applied to parameters -/

variable {c : ClassId} {qs : List ParamId} {ts : List Ty} {b : Bearing}

theorem matchTypes_eq_matchClass (s : Store) (target : ParamId) (c : ClassId) (cs ds : List Ty)
    (b : Bearing) : ∃ n, s.matchTypes target (.cls c cs) (.cls c ds) b 0 =
      (s.matchClass target (fun p t => s.matchWithin target (n + 1) p t .exactly 1) ⟨c, cs⟩
        ⟨c, ds⟩).getD .noInfo := by
  have hstep (n : Nat) : s.matchWithin target (n + 1 + 1) (.cls c cs) (.cls c ds) b 0 =
      s.matchClass target (fun p t => s.matchWithin target (n + 1) p t .exactly 1) ⟨c, cs⟩
        ⟨c, ds⟩ := if_pos rfl
  obtain ⟨n, hn⟩ : ∃ n, matchBudget (.cls c cs) (.cls c ds) = n + 1 + 1 := by
    unfold matchBudget Limits.matchSteps
    exact ⟨_, rfl⟩
  refine ⟨n, ?_⟩
  unfold matchTypes
  rw [hn, hstep]

theorem any_holdsTarget_params :
    (qs.map Ty.param).any (holdsTarget target) = decide (target ∈ qs) := by
  rw [List.any_map, Bool.eq_iff_iff, List.any_eq_true, decide_eq_true_eq]
  constructor
  · rintro ⟨q, hq, heq⟩
    exact beq_iff_eq.1 heq ▸ hq
  · exact fun h => ⟨target, h, beq_self_eq_true target⟩

theorem matchTypes_params (hlength : qs.length = ts.length) (honce : qs.count target = 1) {t : Ty}
    (hmem : (target, t) ∈ qs.zip ts) (hstated : ∀ k, t ≠ .wild k none)
    (hknown : (t.isNull || t.isUnknown) = false) :
    s.matchTypes target (.cls c (qs.map .param)) (.cls c ts) b 0 =
      .found ⟨t.reopen, .exactly⟩ := by
  obtain ⟨n, hn⟩ := matchTypes_eq_matchClass s target c (qs.map .param) ts b
  have hne : ts.isEmpty = false := by
    cases ts with
    | nil =>
      rw [List.zip_nil_right] at hmem
      cases hmem
    | cons _ _ => rfl
  have hpairs : pairArgs (qs.map .param) (s.promoteAll ⟨c, ts⟩) =
      (qs.map .param).zip (s.promoteAll ⟨c, ts⟩) := by
    unfold pairArgs promoteAll
    rw [List.length_map, List.length_mapIdx, if_pos hlength]
  have hpromoted : (target, t) ∈ qs.zip (s.promoteAll ⟨c, ts⟩) := by
    obtain ⟨i, hi⟩ := List.mem_iff_getElem?.1 hmem
    obtain ⟨hq, ht⟩ := List.getElem?_zip_eq_some.1 hi
    refine List.mem_of_getElem? (i := i) (List.getElem?_zip_eq_some.2 ⟨hq, ?_⟩)
    rw [promoteAll, List.getElem?_mapIdx, ht, Option.map_some, promote_of_stated hstated]
  rw [hn, matchClass]
  simp only [hne, Bool.false_and, Bool.false_eq_true, if_false, hpairs]
  rw [matchArgs_of_mem honce hpromoted hknown]
  rfl

theorem matchTypes_params_of_not_mem (h : target ∉ qs) :
    s.matchTypes target (.cls c (qs.map .param)) (.cls c ts) b 0 = .noInfo := by
  obtain ⟨n, hn⟩ := matchTypes_eq_matchClass s target c (qs.map .param) ts b
  rw [hn, matchClass]
  simp only [any_holdsTarget_params, decide_eq_false h]
  split
  · rfl
  · unfold pairArgs
    split
    · rw [matchArgs_of_not_mem _ none h]
      rfl
    · rfl

end GenericCalls.Store
