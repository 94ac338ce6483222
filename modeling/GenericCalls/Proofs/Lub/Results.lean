import GenericCalls.Proofs.Lub.Arguments

/-! # What a least upper bound can be

The least upper bound of two types that are not the same is one of them, boxed, or a solid type. In
particular it is solid where the two types are bounds, so that it accepts whatever they bound. All
this is as long as the limit on nested checks does not make types seem apart that are not. -/

namespace GenericCalls.Store

open Ty

variable {s : Store} {a b a' b' c : Ty} {d : Nat}

/-! ### Limits on checks -/

/-- The limit on nested checks does not keep `target` from accepting `source`. -/
def WithinLimit (s : Store) (target source : Ty) : Prop :=
  ∀ n, s.assignableWithin true n target source = true → s.assignable target source = true

/-- The limit on nested checks does not matter where two types are compared to join them. -/
def ComparedWithinLimit (s : Store) (a b : Ty) : Prop :=
  ∀ a' b', Compared s a b a' b' → WithinLimit s a' b' ∧ WithinLimit s b' a'

/-- The limit on nested checks does not matter for any two types that joining `a` and `b` joins. -/
def JoinsWithinLimit (s : Store) (a b : Ty) (d : Nat) : Prop :=
  ∀ x y e, Visits s a b d x y e → ComparedWithinLimit s x y

theorem WithinLimit.assignable (h : WithinLimit s a b) (haccepts : Accepts s true a b) :
    s.assignable a b = true := by
  obtain ⟨n, hn⟩ := haccepts
  exact h n hn

/-- The limit does not matter for a check that does not reach it. -/
theorem withinLimit_of_beyond {n : Nat} (h : s.assignableBeyond true n a b = s.assignable a b) :
    WithinLimit s a b := by
  intro m hm
  rw [← h]
  exact assignableBeyond_of_accepts n ⟨m, hm⟩

theorem ComparedWithinLimit.symm (h : ComparedWithinLimit s a b) : ComparedWithinLimit s b a :=
  fun b' a' hc => (h a' b' hc.symm).symm

theorem JoinsWithinLimit.here (h : JoinsWithinLimit s a b d) : ComparedWithinLimit s a b :=
  h a b d .here

theorem JoinsWithinLimit.call {e : Nat} (h : JoinsWithinLimit s a b d)
    (hcall : Calls s a b d x y e) : JoinsWithinLimit s x y e :=
  fun x' y' e' hvisits => h x' y' e' (.later hcall hvisits)

/-! ### Boxing -/

theorem eq_null_of_box (h : s.box? a = some a') (hnull : a'.isNull = true) : a = .null := by
  cases a with
  | prim p =>
    obtain ⟨c, rfl⟩ := eq_raw_of_boxed (q := p) h
    cases hnull
  | _ =>
    cases h
    exact isNull_iff.1 hnull

theorem eq_of_box_cls {f : ClassId} {args : List Ty} (h : s.box? (.cls f args) = some a') :
    a' = .cls f args :=
  (Option.some.inj h).symm

theorem isReference_of_box (h : s.box? a = some a') (ha : a.regular = true) :
    a'.isReference = true := by
  cases a with
  | prim p =>
    obtain ⟨c, rfl⟩ := eq_raw_of_boxed (q := p) h
    rfl
  | unknown => cases ha
  | _ =>
    cases h
    rfl

theorem regular_of_box (h : s.box? a = some a') (ha : a.regular = true) : a'.regular = true := by
  cases a with
  | prim p =>
    obtain ⟨c, rfl⟩ := eq_raw_of_boxed (q := p) h
    rfl
  | _ =>
    cases h
    exact ha

theorem solid_of_box (h : s.box? a = some a') (ha : a.joinable = true)
    (hnull : a'.isNull = false) : a'.solid = true := by
  cases a with
  | prim p =>
    obtain ⟨c, rfl⟩ := eq_raw_of_boxed (q := p) h
    rfl
  | null =>
    cases h
    cases hnull
  | _ =>
    cases h
    simpa [joinable, isPrim, isNull] using ha

theorem primFree_of_box (h : s.box? a = some a') (hfree : a.isPrim = true ∨ a.primFree = true) :
    a'.primFree = true := by
  cases a with
  | prim p =>
    obtain ⟨c, rfl⟩ := eq_raw_of_boxed (q := p) h
    rfl
  | _ =>
    cases h
    exact hfree.resolve_left nofun

theorem accepts_of_box (h : s.box? a = some a') (href : c.isReference = true)
    (hnull : c.isNull = false) (hc : Accepts s true c a') : Accepts s true c a := by
  cases a with
  | prim p => exact accepts_iff.2 (.box href hnull rfl h hc)
  | _ =>
    cases h
    exact hc

theorem Boxed.rightValue_of_leftNull (h : Boxed s a b a' b') (hnull : a'.isNull = true) :
    b'.isNull = false := by
  cases hb : b'.isNull with
  | false => rfl
  | true =>
    have hdiff := h.different
    rw [eq_null_of_box h.left hnull, eq_null_of_box h.right hb] at hdiff
    cases hdiff

/-! ### Outcomes -/

/-- The least upper bound of two types: the first if they are the same, else one of them, boxed, or
a solid type. -/
inductive Outcome (s : Store) (a b : Ty) : Ty → Prop where
  | same (h : (a == b) = true) : Outcome s a b a
  | left {c : Ty} (h : s.box? a = some c) (hnull : c.isNull = false) : Outcome s a b c
  | right {c : Ty} (h : s.box? b = some c) (hnull : c.isNull = false) : Outcome s a b c
  | solid {c : Ty} (h : c.solid = true) : Outcome s a b c

theorem chooseForm_eq (a b : Ty) : chooseForm a b = a ∨ chooseForm a b = b := by
  have hleast (a b : Ty) : Ty.least a b = a ∨ Ty.least a b = b := by
    unfold Ty.least
    split
    · exact .inl rfl
    · exact .inr rfl
  unfold chooseForm
  split
  · split
    · exact .inr rfl
    · exact hleast _ _
  · split
    · exact .inl rfl
    · exact hleast _ _
  · exact hleast a b

theorem outcome_of_settled (h : Settled s a b (some c)) : Outcome s a b c := by
  cases h with
  | same _ h => exact .same h
  | leftNull h hnull => exact .right h.right (h.rightValue_of_leftNull hnull)
  | rightNull h hvalue _ => exact .left h.left hvalue
  | @either a' b' h _ _ =>
    rcases chooseForm_eq a' b' with hform | hform
    · rw [hform]
      exact .left h.left h.leftValue
    · rw [hform]
      exact .right h.right h.rightValue
  | left h _ _ => exact .left h.left h.leftValue
  | right h _ _ => exact .right h.right h.rightValue

theorem Outcome.solid_of_joinable (h : Outcome s a b c) (ha : a.joinable = true)
    (hb : b.joinable = true) : (a == b) = true ∧ c = a ∨ c.solid = true := by
  cases h with
  | same h => exact .inl ⟨h, rfl⟩
  | left h hnull => exact .inr (solid_of_box h ha hnull)
  | right h hnull => exact .inr (solid_of_box h hb hnull)
  | solid h => exact .inr h

theorem eq_of_joinable_not_solid (ha : a.joinable = true) (hsolid : a.solid = false)
    (h : (a == b) = true) : b = a := by
  cases a with
  | prim p =>
    cases b with
    | prim q =>
      rw [Ty.beq_eq_same, Ty.same, beq_iff_eq] at h
      rw [h]
    | _ => cases h
  | null =>
    cases b with
    | null => rfl
    | _ => cases h
  | _ => simp_all [joinable, isPrim, isNull]

/-- A chain of bounds that neither begins nor ends in a solid type consists of `? extends` around
that end. -/
theorem eq_nested_of_concreteBound (n : Nat) (hsolid : a.solid = false)
    (hend : (s.concreteBound n a).solid = false) : ∃ k, a = nested k (s.concreteBound n a) := by
  induction n generalizing a with
  | zero => cases hend
  | succ n ih =>
    cases hvar : a.isVariable with
    | false =>
      rw [concreteBound_of_not_variable hvar]
      exact ⟨0, rfl⟩
    | true =>
      rw [concreteBound_of_variable hvar] at hend ⊢
      cases a with
      | wild kind b =>
        cases b with
        | none => cases kind <;> cases hsolid
        | some b =>
          cases kind with
          | lower => cases n <;> cases hend
          | upper =>
            obtain ⟨k, hk⟩ := ih (a := b) hsolid hend
            exact ⟨k + 1, congrArg extending hk⟩
      | param p => cases hsolid
      | captured i kind b => cases hsolid
      | _ => cases hvar

theorem accepts_nested (ha : a.isReference = true) (k : Nat) : Accepts s true (nested k a) a := by
  induction k with
  | zero => exact accepts_self (isReference_iff.1 ha).1
  | succ k ih => exact accepts_iff.2 (.bound ha ih)

theorem accepts_nested_or {m n : Nat} (ha : (nested m c).isReference = true)
    (hb : (nested n c).isReference = true) :
    Accepts s true (nested m c) (nested n c) ∨ Accepts s true (nested n c) (nested m c) := by
  rcases Nat.le_total m n with hmn | hnm
  · obtain ⟨k, rfl⟩ := Nat.exists_eq_add_of_le' hmn
    rw [nested_add]
    exact .inr (accepts_nested ha k)
  · obtain ⟨k, rfl⟩ := Nat.exists_eq_add_of_le' hnm
    rw [nested_add]
    exact .inl (accepts_nested hb k)

theorem Regular.accepts_of_same_end (hs : s.Regular) {n : Nat} (ha : a.regular = true)
    (hb : b.regular = true) (hsolid : a.solid = true)
    (hsame : s.concreteBound (n + 2) b = s.concreteBound (n + 2) a)
    (hend : (s.concreteBound (n + 2) a).solid = false) : Accepts s true a b := by
  have hjoinable := hs.joinable_concreteBound (n + 2) ha
  have hfree := hs.primFree_concreteBound (n + 2) (primFree_of_solid hsolid) ha
  have hnull : s.concreteBound (n + 2) a = .null := by
    generalize s.concreteBound (n + 2) a = e at hend hjoinable hfree
    cases e <;> simp_all [joinable, isPrim, isNull, primFree]
  refine hs.accepts_of_concreteBound hsolid n hb ?_
  rw [hsame, hnull]
  exact accepts_iff.2 (.null (isUnknown_of_solid hsolid))

/-- Of two chains of bounds that end in one type that is not solid, one begins where it accepts the
beginning of the other. -/
theorem Regular.accepts_or_of_same_end (hs : s.Regular) {n : Nat} (ha : a.regular = true)
    (hb : b.regular = true) (hra : a.isReference = true) (hrb : b.isReference = true)
    (hsame : s.concreteBound (n + 2) b = s.concreteBound (n + 2) a)
    (hend : (s.concreteBound (n + 2) a).solid = false) :
    Accepts s true a b ∨ Accepts s true b a := by
  have hend' : (s.concreteBound (n + 2) b).solid = false := by rw [hsame, hend]
  cases hsa : a.solid with
  | true => exact .inl (hs.accepts_of_same_end ha hb hsa hsame hend)
  | false =>
    cases hsb : b.solid with
    | true => exact .inr (hs.accepts_of_same_end hb ha hsb hsame.symm hend')
    | false =>
      obtain ⟨k, hk⟩ := eq_nested_of_concreteBound (n + 2) hsa hend
      obtain ⟨l, hl⟩ := eq_nested_of_concreteBound (n + 2) hsb hend'
      rw [hsame] at hl
      generalize s.concreteBound (n + 2) a = e at hk hl
      subst hk hl
      exact accepts_nested_or hra hrb

theorem joinAt_eq_cls {join : Ty → Ty → Nat → Option (Option Ty)} {e : ClassId} {r : Ty}
    (h : s.joinAt join a b d e = some r) : ∃ args, r = .cls e args := by
  by_cases hp : ∃ left right, Paired s e a b left right
  · obtain ⟨left, right, hp⟩ := hp
    rw [joinAt_paired hp, Option.map_eq_some_iff] at h
    obtain ⟨args, _, rfl⟩ := h
    exact ⟨args, rfl⟩
  · rw [joinAt_raw fun l r hlr => hp ⟨l, r, hlr⟩] at h
    cases h
    exact ⟨[], rfl⟩

theorem solid_meetOf {ts : List Ty} (h : ∀ t ∈ ts, t.solid = true) :
    (s.meetOf ts).solid = true := by
  match ts with
  | [] => rfl
  | [t] => exact h t List.mem_cons_self
  | _ :: _ :: _ => exact solidAll_iff.2 h

theorem solid_joinClasses {join : Ty → Ty → Nat → Option (Option Ty)}
    (h : s.joinClasses join a b d = some c) : c.solid = true := by
  unfold joinClasses at h
  rw [Option.map_eq_some_iff] at h
  obtain ⟨ts, hts, rfl⟩ := h
  refine solid_meetOf fun t ht => ?_
  rw [mapM_eq_some_iff] at hts
  have hmem : some t ∈ ts.map some := List.mem_map_of_mem ht
  rw [← hts] at hmem
  obtain ⟨e, _, he⟩ := List.mem_map.1 hmem
  obtain ⟨args, rfl⟩ := joinAt_eq_cls he
  rfl

/-- Where two types are joined through their bounds, the bounds are not both of a kind that accepts
only itself. -/
theorem Regular.solid_of_bounds (hs : s.Regular) (ha : a.regular = true) (hb : b.regular = true)
    (hlimit : ComparedWithinLimit s a b) (h : Apart s a b a' b')
    (hout : Outcome s (s.concreteBound Limits.boundChain a')
      (s.concreteBound Limits.boundChain b') c) : c.solid = true := by
  have ha' := regular_of_box h.left ha
  have hb' := regular_of_box h.right hb
  have hja := hs.joinable_concreteBound Limits.boundChain ha'
  have hjb := hs.joinable_concreteBound Limits.boundChain hb'
  rcases hout.solid_of_joinable hja hjb with ⟨hsame, rfl⟩ | hsolid
  · cases hca : (s.concreteBound Limits.boundChain a').solid with
    | true => rfl
    | false =>
      have hra := isReference_of_box h.left ha
      have hrb := isReference_of_box h.right hb
      have hend := eq_of_joinable_not_solid hja hca hsame
      -- One of the types accepts the other, but they are apart.
      obtain ⟨habove, hbelow⟩ := hlimit a' b' h.toCompared
      rcases hs.accepts_or_of_same_end (n := 30) ha' hb' hra hrb hend hca with hab | hba
      · rw [← h.notAbove, habove.assignable hab]
      · rw [← h.notBelow, hbelow.assignable hba]
  · exact hsolid

theorem Regular.solid_of_apart (hs : s.Regular) {n : Nat} (ha : a.regular = true)
    (hb : b.regular = true) (hlimit : JoinsWithinLimit s a b d) (hap : Apart s a b a' b')
    (hout : ∀ a b c, a.regular = true → b.regular = true → JoinsWithinLimit s a b d →
      s.lubWithin n a b d = some (some c) → Outcome s a b c)
    (h : s.lubStep (s.lubWithin n) a b d = some (some c)) : c.solid = true := by
  rcases forms a' b' with hvar | ⟨t, u, rfl, rfl⟩ | hone | hby
  · rw [lubStep_bounds hap hvar] at h
    have hra := hs.regular_concreteBound Limits.boundChain (regular_of_box hap.left ha)
    have hrb := hs.regular_concreteBound Limits.boundChain (regular_of_box hap.right hb)
    have hbounds := hout _ _ c hra hrb (hlimit.call (.bounds hap hvar)) h
    exact hs.solid_of_bounds ha hb hlimit.here hap hbounds
  · rw [lubStep_arrays hap] at h
    split at h
    · cases h
      rfl
    · rw [Option.map_eq_some_iff] at h
      obtain ⟨r, _, hr⟩ := h
      cases r <;> cases hr <;> rfl
  · rw [lubStep_oneArray hap hone] at h
    cases h
    rfl
  · rw [lubStep_classes hap hby, Option.map_eq_some_iff] at h
    obtain ⟨r, hr, hc⟩ := h
    cases hc
    exact solid_joinClasses hr

theorem Regular.outcome (hs : s.Regular) {n : Nat} (ha : a.regular = true) (hb : b.regular = true)
    (hlimit : JoinsWithinLimit s a b d) (h : s.lubWithin n a b d = some (some c)) :
    Outcome s a b c := by
  induction n generalizing a b d c with
  | zero => cases h
  | succ n ih =>
    have h : s.lubStep (s.lubWithin n) a b d = some (some c) := h
    rcases s.settled_or_apart a b with ⟨r, hr⟩ | ⟨a', b', hap⟩
    · rw [lubStep_settled hr] at h
      cases h
      exact outcome_of_settled hr
    · exact .solid (hs.solid_of_apart ha hb hlimit hap (fun a b c ha hb hl hc => ih ha hb hl hc) h)

end GenericCalls.Store
