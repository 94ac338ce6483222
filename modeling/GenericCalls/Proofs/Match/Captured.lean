import GenericCalls.Proofs.Assignable.Captured
import GenericCalls.Proofs.Match.Parameters

/-! # Matches with captured types

A captured wildcard is matched as the wildcard that it captures. But `?` in a type argument is first
promoted to the bound of the parameter in its place, and one that is captured is not. So a class
type matches a pattern of its own class as it did before its wildcards were captured, as long as no
`?` in it is promoted where the pattern can tell. -/

namespace GenericCalls

open Ty

/-! ### Captured type arguments -/

theorem Ty.Captures.reopen_eq {t u : Ty} (h : t.Captures u) : u.reopen = t.reopen := by
  cases t with
  | wild k b =>
    obtain ⟨i, rfl⟩ := h
    rfl
  | _ =>
    cases h
    rfl

theorem Ty.Captures.size_eq {t u : Ty} (h : t.Captures u) : u.size = t.size := by
  cases t with
  | wild k b =>
    obtain ⟨i, rfl⟩ := h
    cases b <;> rfl
  | _ =>
    cases h
    rfl

theorem sizeAll_captures {ts us : List Ty} (h : List.Forall₂ Ty.Captures ts us) :
    sizeAll us = sizeAll ts := by
  induction h with
  | nil => rfl
  | cons hcaptures _ ih => rw [sizeAll, sizeAll, hcaptures.size_eq, ih]

namespace Store

variable {s : Store} {target : ParamId} {c : ClassId}

/-! ### One place -/

theorem matchWithin_reopen (n : Nat) (p t : Ty) (b : Bearing) (d : Nat) :
    s.matchWithin target n p t.reopen b d = s.matchWithin target n p t b d := by
  have hreopen : t.reopen.reopen = t.reopen := by cases t <;> rfl
  cases n with
  | zero => rfl
  | succ n =>
    unfold matchWithin matchStep
    rw [hreopen]

/-- A captured wildcard is matched as it was before, but not promoted. -/
theorem matchWithin_promote_of_captures (n i : Nat) (p : Ty) {t u : Ty} (h : t.Captures u)
    (b : Bearing) (d : Nat) :
    s.matchWithin target n p (s.promote c i u) b d = s.matchWithin target n p t b d := by
  have hstated (k : WildcardKind) : u ≠ .wild k none := by
    rintro rfl
    cases h.isWild
  rw [promote_of_stated hstated, ← matchWithin_reopen, h.reopen_eq, matchWithin_reopen]

/-- Whether a pattern can tell a wildcard `?` from one that is bounded above. -/
def tells (target : ParamId) : Ty → Bool
  | .wild .upper (some _) => true
  | p => p.isParam target

theorem promote_eq_or (c : ClassId) (i : Nat) (t : Ty) :
    s.promote c i t = t ∨
      (∃ k, t = .wild k none) ∧ ∃ b, s.promote c i t = .wild .upper (some b) := by
  unfold promote
  split
  · dsimp only
    split
    · split
      · exact .inl rfl
      · exact .inr ⟨⟨_, rfl⟩, _, rfl⟩
    · exact .inl rfl
  · exact .inl rfl

theorem matchWithin_of_not_tells {n : Nat} {p : Ty} (hp : tells target p = false)
    (k : WildcardKind) {b : Option Ty} (hb : b = none ∨ k = .upper) (r : Bearing) (d : Nat) :
    s.matchWithin target (n + 1) p (.wild k b) r d = some .noInfo := by
  have hparam : p.isParam target = false := by
    cases p with
    | param q => exact hp
    | _ => rfl
  simp only [matchWithin, matchStep, hparam, reopen]
  cases p with
  | wild l bound =>
    cases bound with
    | none => rfl
    | some bound =>
      cases l with
      | upper => cases hp
      | lower =>
        rcases hb with rfl | rfl
        · cases k <;> rfl
        · rfl
  | _ => rfl

/-! ### All places -/

theorem matchArgs_congr {go : Ty → Ty → Option MatchResult} {captured : Option Constraint}
    {pairs pairs' : List (Ty × Ty)}
    (h : pairs.map (fun x => go x.1 x.2) = pairs'.map (fun x => go x.1 x.2)) :
    matchArgs go captured pairs = matchArgs go captured pairs' := by
  induction pairs generalizing pairs' captured with
  | nil =>
    rw [List.map_nil, eq_comm, List.map_eq_nil_iff] at h
    rw [h]
  | cons x pairs ih =>
    cases pairs' with
    | nil => cases h
    | cons x' pairs' =>
      rw [List.map_cons, List.map_cons, List.cons.injEq] at h
      rw [matchArgs, matchArgs, h.1]
      split
      · rfl
      · exact ih h.2
      · split
        · cases captured with
          | none => exact ih h.2
          | some _ => rfl
        · rfl
      · rfl

theorem constrain_cls_self (s : Store) (target : ParamId) (c : ClassId) (ps ts : List Ty) :
    s.constrain target .intoFormal (.cls c ps) (.cls c ts) =
      s.matchTypes target (.cls c ps) (.cls c ts) .atLeast 0 := by
  have hlift : s.liftWithin c Limits.liftSteps (.cls c ts) = some ⟨c, ts⟩ := by
    simp only [Limits.liftSteps, liftWithin, ancestorArgs, if_true, Option.map_some]
  simp only [constrain, box?, constrainClass, hlift]
  rfl

theorem length_promoteAll (s : Store) (c : ClassTy) :
    (s.promoteAll c).length = c.args.length := List.length_mapIdx

theorem constrain_cls_congr {ps ts us : List Ty} (hlength : us.length = ts.length)
    (hsize : sizeAll us = sizeAll ts)
    (h : ∀ n i (hi : i < ps.length) (hu : i < us.length) (ht : i < ts.length),
      s.matchWithin target (n + 1) ps[i] (s.promote c i us[i]) .exactly 1 =
        s.matchWithin target (n + 1) ps[i] (s.promote c i ts[i]) .exactly 1) :
    s.constrain target .intoFormal (.cls c ps) (.cls c us) =
      s.constrain target .intoFormal (.cls c ps) (.cls c ts) := by
  have hbudget : matchBudget (.cls c ps) (.cls c us) = matchBudget (.cls c ps) (.cls c ts) := by
    simp only [matchBudget, Ty.size, hsize]
  obtain ⟨n, hn⟩ : ∃ n, matchBudget (.cls c ps) (.cls c ts) = n + 1 + 1 := by
    unfold matchBudget Limits.matchSteps
    exact ⟨_, rfl⟩
  have hstep (vs : List Ty) : s.matchWithin target (n + 1 + 1) (.cls c ps) (.cls c vs) .atLeast 0 =
      s.matchClass target (fun p t => s.matchWithin target (n + 1) p t .exactly 1) ⟨c, ps⟩
        ⟨c, vs⟩ := if_pos rfl
  have hempty : us.isEmpty = ts.isEmpty := by
    cases us <;> cases ts <;> first | rfl | cases hlength
  rw [constrain_cls_self, constrain_cls_self, matchTypes, matchTypes, hbudget, hn, hstep, hstep,
    matchClass, matchClass]
  dsimp only
  rw [hempty]
  split
  · rfl
  · refine congrArg (Option.getD · .noInfo) (matchArgs_congr ?_)
    unfold pairArgs
    rw [length_promoteAll, length_promoteAll, hlength]
    split
    · refine List.ext_getElem ?_ fun i hi hi' => ?_
      · simp only [List.length_map, List.length_zip, length_promoteAll, hlength]
      · simp only [List.length_map, List.length_zip, length_promoteAll] at hi hi'
        simp only [List.getElem_map, List.getElem_zip, promoteAll, List.getElem_mapIdx]
        exact h n i (by omega) (by omega) (by omega)
    · rfl

/-- Captured type arguments are matched as they were before, where no pattern can tell that a `?` is
promoted. -/
theorem constrain_capture_eq {ps ts : List Ty} (session : Session)
    (h : ∀ i, ∀ p ∈ ps[i]?, ∀ t ∈ ts[i]?, s.promote c i t = t ∨ tells target p = false) :
    s.constrain target .intoFormal (.cls c ps) (session.capture (.cls c ts)).1 =
      s.constrain target .intoFormal (.cls c ps) (.cls c ts) := by
  have hcaptures := session.captureArgs_captures ts
  refine constrain_cls_congr hcaptures.length_eq.symm (sizeAll_captures hcaptures)
    fun n i hi hu ht => ?_
  refine (matchWithin_promote_of_captures (n + 1) i ps[i] (hcaptures.get ht hu) .exactly 1).trans ?_
  rw [List.get_eq_getElem]
  rcases s.promote_eq_or c i ts[i] with heq | ⟨⟨k, hk⟩, b, hb⟩
  · exact (congrArg (s.matchWithin target (n + 1) ps[i] · .exactly 1) heq).symm
  · rcases h i _ (List.getElem?_eq_getElem hi) _ (List.getElem?_eq_getElem ht) with heq | htells
    · exact (congrArg (s.matchWithin target (n + 1) ps[i] · .exactly 1) heq).symm
    · rw [hb, hk, matchWithin_of_not_tells htells k (.inl rfl),
        matchWithin_of_not_tells htells .upper (.inr rfl)]

/-! ### Promoted wildcards -/

/-- Type arguments of which only the one in place `i` says something. -/
def onlyAt (i : Nat) (t : Ty) : List Ty := List.replicate i .null ++ [t]

theorem captureArgs_onlyAt (session : Session) (i : Nat) (k : WildcardKind) :
    (session.captureArgs (onlyAt i (.wild k none))).1 =
      onlyAt i (.captured (session.captures + 1) k none) := by
  unfold onlyAt
  induction i with
  | zero => rfl
  | succ i ih => simp only [List.replicate_succ, List.cons_append, Session.captureArgs, ih]

theorem promoteAll_onlyAt (s : Store) (c : ClassId) (i : Nat) (t : Ty) :
    s.promoteAll ⟨c, onlyAt i t⟩ = onlyAt i (s.promote c i t) := by
  unfold promoteAll onlyAt
  rw [List.mapIdx_append, List.length_replicate]
  refine congrArg₂ (· ++ ·) ?_ (by rw [List.mapIdx_cons, List.mapIdx_nil, Nat.zero_add])
  refine List.ext_getElem (by rw [List.length_mapIdx]) fun j _ _ => ?_
  rw [List.getElem_mapIdx, List.getElem_replicate]
  rfl

theorem matchArgs_onlyAt {go : Ty → Ty → Option MatchResult} (hgo : go .null .null = some .noInfo)
    (i : Nat) (p t : Ty) :
    matchArgs go none ((onlyAt i p).zip (onlyAt i t)) = matchArgs go none [(p, t)] := by
  unfold onlyAt
  induction i with
  | zero => rfl
  | succ i ih =>
    rw [List.replicate_succ, List.cons_append, List.cons_append, List.zip_cons_cons, matchArgs, hgo]
    exact ih

/-- A parameter is equated with the wildcard in its place, promoted if it can be. -/
theorem constrain_onlyAt (s : Store) (target : ParamId) (c : ClassId) (i : Nat) (t : Ty)
    (ht : (s.promote c i t).reopen.isWild = true) :
    s.constrain target .intoFormal (.cls c (onlyAt i (.param target))) (.cls c (onlyAt i t)) =
      .found ⟨(s.promote c i t).reopen, .exactly⟩ := by
  generalize hpromoted : s.promote c i t = promoted at ht ⊢
  obtain ⟨n, hn⟩ := matchTypes_eq_matchClass s target c (onlyAt i (.param target)) (onlyAt i t)
    .atLeast
  have hknown : (promoted.reopen.isNull || promoted.reopen.isUnknown) = false := by
    cases hu : promoted.reopen <;> rw [hu] at ht <;> first | rfl | cases ht
  have hne : (onlyAt i t).isEmpty = false := by
    unfold onlyAt
    cases i <;> rfl
  rw [constrain_cls_self, hn, matchClass]
  dsimp only
  rw [hne, Bool.false_and, if_neg Bool.false_ne_true, promoteAll_onlyAt, hpromoted,
    pairArgs, if_pos (by simp [onlyAt]), matchArgs_onlyAt rfl, matchArgs, matchWithin_param,
    if_pos rfl, hknown, if_neg Bool.false_ne_true]
  dsimp only
  rw [if_pos ht]
  rfl

/-- Capturing the arguments of a class type never changes what it says, in whichever pattern of its
class a parameter is sought, exactly if no `?` is promoted in this class. In every class it changes
nothing where no pattern can tell that a `?` is promoted. -/
theorem constrain_capture_iff (s : Store) (c : ClassId) :
    ((∀ target ps ts (session : Session),
        s.constrain target .intoFormal (.cls c ps) (session.capture (.cls c ts)).1 =
          s.constrain target .intoFormal (.cls c ps) (.cls c ts)) ↔
      ∀ i k, s.promote c i (.wild k none) = .wild k none) ∧
    ∀ target ps ts (session : Session),
      (∀ i, ∀ p ∈ ps[i]?, ∀ t ∈ ts[i]?, s.promote c i t = t ∨ tells target p = false) →
      s.constrain target .intoFormal (.cls c ps) (session.capture (.cls c ts)).1 =
        s.constrain target .intoFormal (.cls c ps) (.cls c ts) := by
  refine ⟨⟨fun h i k => ?_, fun h target ps ts session => ?_⟩,
    fun target ps ts session => constrain_capture_eq session⟩
  · have hsame := h 0 (onlyAt i (.param 0)) (onlyAt i (.wild k none)) {}
    have hwild : (s.promote c i (.wild k none)).reopen.isWild = true ∧
        (s.promote c i (.wild k none)).reopen = s.promote c i (.wild k none) := by
      rcases s.promote_eq_or c i (.wild k none) with heq | ⟨_, b, hb⟩
      · rw [heq]
        exact ⟨rfl, rfl⟩
      · rw [hb]
        exact ⟨rfl, rfl⟩
    rw [constrain_onlyAt s 0 c i _ hwild.1, hwild.2] at hsame
    dsimp only [Session.capture] at hsame
    rw [captureArgs_onlyAt, constrain_onlyAt s 0 c i (.captured _ k none) rfl] at hsame
    exact (congrArg Constraint.ty (MatchResult.found.inj hsame)).symm
  · refine constrain_capture_eq session fun i p _ t _ => .inl ?_
    rcases s.promote_eq_or c i t with heq | ⟨⟨k, rfl⟩, _⟩
    · exact heq
    · exact h i k

/-- The built-in classes with a class `Box<B extends Number>` and a method `<T> m()`. -/
def numberBoxes : Store :=
  let (s, box) := standard.declareClass "Box" .concrete
  let (s, b) := s.declareParam "B" (.cls box)
  let s := s.setBounds b [.raw 2]
  let (s, m) := s.declareMethod "m" .method none
  (s.declareParam "T" (.method m)).1

/-- As written, `Box<?>` equates `T` in `Box<T>` with `? extends Number`; captured, with `?`. -/
theorem constrain_capture_numberBoxes :
    let pattern : Ty := .cls 13 [.param 16]
    let boxes : Ty := .cls 13 [.anything]
    numberBoxes.constrain 16 .intoFormal pattern boxes =
        .found ⟨.extending (.raw 2), .exactly⟩ ∧
      numberBoxes.constrain 16 .intoFormal pattern (({} : Session).capture boxes).1 =
        .found ⟨.anything, .exactly⟩ ∧
      numberBoxes.constrain 16 .intoFormal pattern (({} : Session).capture boxes).1 ≠
        numberBoxes.constrain 16 .intoFormal pattern boxes := by
  intro pattern boxes
  have hplain : numberBoxes.constrain 16 .intoFormal pattern boxes =
      .found ⟨.extending (.raw 2), .exactly⟩ := numberBoxes.constrain_onlyAt 16 13 0 .anything rfl
  have hcaptured : numberBoxes.constrain 16 .intoFormal pattern (({} : Session).capture boxes).1 =
      .found ⟨.anything, .exactly⟩ :=
    numberBoxes.constrain_onlyAt 16 13 0 (.captured 1 .upper none) rfl
  refine ⟨hplain, hcaptured, ?_⟩
  rw [hplain, hcaptured]
  exact nofun

end Store

end GenericCalls
