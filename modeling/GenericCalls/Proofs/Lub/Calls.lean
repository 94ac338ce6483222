import GenericCalls.Lub
import GenericCalls.Proofs.Traversal
import GenericCalls.Proofs.Ty.Order

/-! # The recursion of least upper bounds

The least upper bound of two types is either settled by the two types themselves, or the types are
apart, and it is made from the least upper bounds of their bounds, of their components, or of the
bounds of their type arguments. The relation `Calls` holds between two types with the depth of their
type arguments and those whose least upper bound is asked for directly. -/

namespace GenericCalls.Store

variable {s : Store} {join join' : Ty → Ty → Nat → Option (Option Ty)} {a b a' b' : Ty} {d : Nat}

/-! ### Settled and apart -/

/-- Two known types that are not the same, with the types that wrap them. -/
structure Boxed (s : Store) (a b a' b' : Ty) : Prop where
  known : (a.isUnknown || b.isUnknown) = false
  different : (a == b) = false
  left : s.box? a = some a'
  right : s.box? b = some b'

/-- Two such types of which neither is the type of `null`. -/
structure Compared (s : Store) (a b a' b' : Ty) : Prop extends Boxed s a b a' b' where
  leftValue : a'.isNull = false
  rightValue : b'.isNull = false

/-- Two such types of which neither is assignable to the other. -/
structure Apart (s : Store) (a b a' b' : Ty) : Prop extends Compared s a b a' b' where
  notAbove : s.assignable a' b' = false
  notBelow : s.assignable b' a' = false

/-- The least upper bound of two types where it does not depend on that of others. -/
inductive Settled (s : Store) (a b : Ty) : Option Ty → Prop where
  | unknown (h : (a.isUnknown || b.isUnknown) = true) : Settled s a b none
  | same (h : (a.isUnknown || b.isUnknown) = false) (heq : (a == b) = true) :
      Settled s a b (some a)
  | unwrapped (h : (a.isUnknown || b.isUnknown) = false) (hne : (a == b) = false)
      (hbox : s.box? a = none ∨ s.box? b = none) : Settled s a b none
  | leftNull {a' b' : Ty} (h : Boxed s a b a' b') (hnull : a'.isNull = true) :
      Settled s a b (some b')
  | rightNull {a' b' : Ty} (h : Boxed s a b a' b') (hvalue : a'.isNull = false)
      (hnull : b'.isNull = true) : Settled s a b (some a')
  | either {a' b' : Ty} (h : Compared s a b a' b') (habove : s.assignable a' b' = true)
      (hbelow : s.assignable b' a' = true) : Settled s a b (some (chooseForm a' b'))
  | left {a' b' : Ty} (h : Compared s a b a' b') (habove : s.assignable a' b' = true)
      (hbelow : s.assignable b' a' = false) : Settled s a b (some a')
  | right {a' b' : Ty} (h : Compared s a b a' b') (habove : s.assignable a' b' = false)
      (hbelow : s.assignable b' a' = true) : Settled s a b (some b')

theorem Boxed.symm (h : Boxed s a b a' b') : Boxed s b a b' a' :=
  ⟨by rw [Bool.or_comm]; exact h.known, by rw [Ty.beq_comm]; exact h.different, h.right, h.left⟩

theorem Compared.symm (h : Compared s a b a' b') : Compared s b a b' a' :=
  ⟨h.toBoxed.symm, h.rightValue, h.leftValue⟩

theorem Apart.symm (h : Apart s a b a' b') : Apart s b a b' a' :=
  ⟨h.toCompared.symm, h.notBelow, h.notAbove⟩

theorem settled_or_apart (s : Store) (a b : Ty) :
    (∃ r, Settled s a b r) ∨ ∃ a' b', Apart s a b a' b' := by
  cases hknown : a.isUnknown || b.isUnknown with
  | true => exact .inl ⟨_, .unknown hknown⟩
  | false =>
    cases hne : a == b with
    | true => exact .inl ⟨_, .same hknown hne⟩
    | false =>
      cases hleft : s.box? a with
      | none => exact .inl ⟨_, .unwrapped hknown hne (.inl hleft)⟩
      | some a' =>
        cases hright : s.box? b with
        | none => exact .inl ⟨_, .unwrapped hknown hne (.inr hright)⟩
        | some b' =>
          have hboxed : Boxed s a b a' b' := ⟨hknown, hne, hleft, hright⟩
          cases hl : a'.isNull with
          | true => exact .inl ⟨_, .leftNull hboxed hl⟩
          | false =>
            cases hr : b'.isNull with
            | true => exact .inl ⟨_, .rightNull hboxed hl hr⟩
            | false =>
              have hcompared : Compared s a b a' b' := ⟨hboxed, hl, hr⟩
              cases habove : s.assignable a' b' <;> cases hbelow : s.assignable b' a'
              · exact .inr ⟨a', b', hcompared, habove, hbelow⟩
              · exact .inl ⟨_, .right hcompared habove hbelow⟩
              · exact .inl ⟨_, .left hcompared habove hbelow⟩
              · exact .inl ⟨_, .either hcompared habove hbelow⟩

theorem Boxed.unique {c c' : Ty} (h : Boxed s a b a' b') (hc : Boxed s a b c c') :
    c = a' ∧ c' = b' := by
  have hl := hc.left
  have hr := hc.right
  rw [h.left] at hl
  rw [h.right] at hr
  exact ⟨(Option.some.inj hl).symm, (Option.some.inj hr).symm⟩

theorem Apart.not_settled {r : Option Ty} (h : Apart s a b a' b') : ¬Settled s a b r := by
  intro hr
  cases hr with
  | unknown hu => rw [h.known] at hu; cases hu
  | same _ heq => rw [h.different] at heq; cases heq
  | unwrapped _ _ hbox =>
    rw [h.left, h.right] at hbox
    rcases hbox with hbox | hbox <;> cases hbox
  | leftNull hb hnull =>
    obtain ⟨rfl, rfl⟩ := h.unique hb
    rw [h.leftValue] at hnull
    cases hnull
  | rightNull hb _ hnull =>
    obtain ⟨rfl, rfl⟩ := h.unique hb
    rw [h.rightValue] at hnull
    cases hnull
  | either hc habove _ =>
    obtain ⟨rfl, rfl⟩ := h.unique hc.toBoxed
    rw [h.notAbove] at habove
    cases habove
  | left hc habove _ =>
    obtain ⟨rfl, rfl⟩ := h.unique hc.toBoxed
    rw [h.notAbove] at habove
    cases habove
  | right hc _ hbelow =>
    obtain ⟨rfl, rfl⟩ := h.unique hc.toBoxed
    rw [h.notBelow] at hbelow
    cases hbelow

/-! ### One step -/

theorem lubStep_boxed (h : Boxed s a b a' b') :
    s.lubStep join a b d =
      if a'.isNull then some (some b')
      else if b'.isNull then some (some a')
      else s.joinDistinct join a' b' d := by
  simp only [lubStep, h.known, h.different, h.left, h.right, Bool.false_eq_true, if_false]

theorem lubStep_compared (h : Compared s a b a' b') :
    s.lubStep join a b d = s.joinDistinct join a' b' d := by
  simp only [lubStep_boxed h.toBoxed, h.leftValue, h.rightValue, Bool.false_eq_true, if_false]

theorem lubStep_settled {r : Option Ty} (h : Settled s a b r) :
    s.lubStep join a b d = some r := by
  cases h with
  | unknown h => simp only [lubStep, h, if_true]
  | same h heq => simp only [lubStep, h, heq, Bool.false_eq_true, if_false, if_true]
  | unwrapped h hne hbox =>
    simp only [lubStep, h, hne, Bool.false_eq_true, if_false]
    split
    · rename_i hl hr
      rw [hl, hr] at hbox
      rcases hbox with hbox | hbox <;> cases hbox
    · rfl
  | leftNull h hnull => simp only [lubStep_boxed h, hnull, if_true]
  | rightNull h hvalue hnull =>
    simp only [lubStep_boxed h, hvalue, hnull, Bool.false_eq_true, if_false, if_true]
  | either h habove hbelow => simp only [lubStep_compared h, joinDistinct, habove, hbelow]
  | left h habove hbelow => simp only [lubStep_compared h, joinDistinct, habove, hbelow]
  | right h habove hbelow => simp only [lubStep_compared h, joinDistinct, habove, hbelow]

/-! ### Forms of types that are apart -/

/-- Two types that are neither variables nor arrays: they are joined by their classes. -/
structure ByClasses (a b : Ty) : Prop where
  noVariable : (a.isVariable || b.isVariable) = false
  left : a.component? = none
  right : b.component? = none

/-- Two types of which exactly one is an array, and none a variable. -/
structure OneArray (a b : Ty) : Prop where
  noVariable : (a.isVariable || b.isVariable) = false
  one : a.component?.isSome = !b.component?.isSome

theorem ByClasses.symm (h : ByClasses a b) : ByClasses b a :=
  ⟨by rw [Bool.or_comm]; exact h.noVariable, h.right, h.left⟩

theorem OneArray.symm (h : OneArray a b) : OneArray b a :=
  ⟨by rw [Bool.or_comm]; exact h.noVariable, by rw [h.one, Bool.not_not]⟩

theorem forms (a b : Ty) :
    (a.isVariable || b.isVariable) = true ∨ (∃ t u, a = .array t ∧ b = .array u) ∨
      OneArray a b ∨ ByClasses a b := by
  cases hvar : a.isVariable || b.isVariable with
  | true => exact .inl rfl
  | false =>
    refine .inr ?_
    cases hl : a.component? with
    | none =>
      cases hr : b.component? with
      | none => exact .inr (.inr ⟨hvar, hl, hr⟩)
      | some u => exact .inr (.inl ⟨hvar, by rw [hl, hr]; rfl⟩)
    | some t =>
      cases hr : b.component? with
      | none => exact .inr (.inl ⟨hvar, by rw [hl, hr]; rfl⟩)
      | some u =>
        cases a <;> cases b <;> simp_all [Ty.component?]

theorem lubStep_bounds (h : Apart s a b a' b') (hvar : (a'.isVariable || b'.isVariable) = true) :
    s.lubStep join a b d =
      join (s.concreteBound Limits.boundChain a') (s.concreteBound Limits.boundChain b') d := by
  simp only [lubStep_compared h.toCompared, joinDistinct, h.notAbove, h.notBelow, hvar, if_true]

theorem lubStep_arrays {t u : Ty} (h : Apart s a b (.array t) (.array u)) :
    s.lubStep join a b d =
      if t.isPrim || u.isPrim then some (some s.object)
      else (join t u d).map fun r => some ((r.map .array).getD s.object) := by
  simp only [lubStep_compared h.toCompared, joinDistinct, h.notAbove, h.notBelow, Ty.isVariable,
    Bool.or_self, Bool.false_eq_true, if_false]

theorem lubStep_oneArray (h : Apart s a b a' b') (hone : OneArray a' b') :
    s.lubStep join a b d = some (some s.object) := by
  have hvar := hone.noVariable
  have hcomponent := hone.one
  simp only [lubStep_compared h.toCompared, joinDistinct, h.notAbove, h.notBelow, hvar,
    Bool.false_eq_true, if_false]
  split
  · simp [Ty.component?] at hcomponent
  · rfl
  · rfl
  · rename_i hleft hright
    cases a' <;> cases b' <;> simp_all [Ty.component?]

theorem lubStep_classes (h : Apart s a b a' b') (hby : ByClasses a' b') :
    s.lubStep join a b d = (s.joinClasses join a' b' d).map some := by
  have hl := hby.left
  have hr := hby.right
  simp only [lubStep_compared h.toCompared, joinDistinct, h.notAbove, h.notBelow, hby.noVariable,
    Bool.false_eq_true, if_false]
  split
  · simp [Ty.component?] at hl
  · simp [Ty.component?] at hl
  · simp [Ty.component?] at hr
  · rfl

/-! ### Calls -/

/-- The type arguments of a class as seen from two types, as many from one as from the other. -/
structure Paired (s : Store) (c : ClassId) (a b : Ty) (left right : List Ty) : Prop where
  leftArgs : argsAt s c a = some left
  rightArgs : argsAt s c b = some right
  nonempty : left ≠ []
  length : left.length = right.length

/-- Joining `a` and `b` at depth `d` looks for the least type argument that holds both `x` and `y`,
which are not the same, and may still join their bounds. -/
inductive Holds (s : Store) (a b : Ty) (d : Nat) (x y : Ty) : Prop where
  | intro {a' b' : Ty} {c : ClassId} {left right : List Ty} (apart : Apart s a b a' b')
      (classes : ByClasses a' b') (common : c ∈ s.commonClasses a' b')
      (paired : Paired s c a' b' left right) (pair : (x, y) ∈ left.zip right)
      (different : (x == y) = false) (depth : d < Limits.lubDepth) : Holds s a b d x y

/-- The least upper bound of `a` and `b` at a depth asks for that of `a'` and `b'` at a depth. -/
inductive Calls (s : Store) (a b : Ty) (d : Nat) : Ty → Ty → Nat → Prop where
  | bounds {a' b' : Ty} (apart : Apart s a b a' b')
      (someVariable : (a'.isVariable || b'.isVariable) = true) :
      Calls s a b d (s.concreteBound Limits.boundChain a') (s.concreteBound Limits.boundChain b') d
  | components {t u : Ty} (apart : Apart s a b (.array t) (.array u))
      (refs : (t.isPrim || u.isPrim) = false) : Calls s a b d t u d
  | arguments {x y : Ty} (holds : Holds s a b d x y) (left : lowerBound? x = none)
      (right : lowerBound? y = none) :
      Calls s a b d (s.upperBound x) (s.upperBound y) (d + 1)

/-- The least upper bounds asked for in computing that of two types at a depth, which is one of
them. -/
inductive Visits (s : Store) : Ty → Ty → Nat → Ty → Ty → Nat → Prop where
  | here {a b : Ty} {d : Nat} : Visits s a b d a b d
  | later {a b a' b' x y : Ty} {d d' e : Nat} (call : Calls s a b d a' b' d')
      (rest : Visits s a' b' d' x y e) : Visits s a b d x y e

theorem Paired.symm {c : ClassId} {left right : List Ty} (h : Paired s c a b left right) :
    Paired s c b a right left := by
  have hnonempty := h.nonempty
  have hlength := h.length
  refine ⟨h.rightArgs, h.leftArgs, ?_, hlength.symm⟩
  intro hr
  rw [hr, List.length_nil, List.length_eq_zero_iff] at hlength
  exact hnonempty hlength

theorem Paired.unique {c : ClassId} {left right left' right' : List Ty}
    (h : Paired s c a b left right) (h' : Paired s c a b left' right') :
    left' = left ∧ right' = right := by
  have hl := h'.leftArgs
  have hr := h'.rightArgs
  rw [h.leftArgs] at hl
  rw [h.rightArgs] at hr
  exact ⟨(Option.some.inj hl).symm, (Option.some.inj hr).symm⟩

theorem joinAt_paired {c : ClassId} {left right : List Ty} (h : Paired s c a b left right) :
    s.joinAt join a b d c =
      ((left.zip right).mapM fun p => s.leastContaining join p.1 p.2 d).map (.cls c) := by
  have hl : left.isEmpty = false := List.isEmpty_eq_false_iff.2 h.nonempty
  have hr : right.isEmpty = false := List.isEmpty_eq_false_iff.2 h.symm.nonempty
  simp only [joinAt, h.leftArgs, h.rightArgs, hl, hr, h.length, bne_self_eq_false, Bool.or_self,
    Bool.false_eq_true, if_false]

theorem joinAt_raw {c : ClassId} (h : ∀ left right, ¬Paired s c a b left right) :
    s.joinAt join a b d c = some (.raw c) := by
  unfold joinAt
  split
  · rename_i left right hl hr
    split
    · rfl
    · rename_i hraw
      simp only [Bool.or_eq_true, List.isEmpty_iff, bne_iff_ne, ne_eq, not_or,
        Decidable.not_not] at hraw
      exact absurd ⟨hl, hr, hraw.1.1, hraw.2⟩ (h left right)
  · rfl

theorem Apart.unique {c c' : Ty} (h : Apart s a b a' b') (hc : Apart s a b c c') :
    c = a' ∧ c' = b' :=
  h.toBoxed.unique hc.toBoxed

/-! ### Type arguments -/

def argOfBound (s : Store) : Option Ty → Ty
  | some bound => if s.isObject bound then Ty.anything else Ty.extending bound
  | none => Ty.anything

theorem leastContaining_same {x y : Ty} (hsame : (x == y) = true) :
    s.leastContaining join x y d = some x := by
  simp only [leastContaining, hsame, if_true]

theorem leastContaining_deep {x y : Ty} (hne : (x == y) = false) (hdepth : Limits.lubDepth ≤ d) :
    s.leastContaining join x y d = some Ty.anything := by
  simp only [leastContaining, hne, hdepth, Bool.false_eq_true, if_false, if_true]

theorem leastContaining_lower {x y p q : Ty} (hne : (x == y) = false)
    (hdepth : d < Limits.lubDepth) (hx : lowerBound? x = some p) (hy : lowerBound? y = some q) :
    s.leastContaining join x y d =
      some (if s.assignable p q then Ty.above q
        else if s.assignable q p then Ty.above p
        else Ty.anything) := by
  simp only [leastContaining, hne, Nat.not_le.2 hdepth, hx, hy, Bool.false_eq_true, if_false]
  split
  · rfl
  · split <;> rfl

theorem leastContaining_mixed {x y : Ty} (hne : (x == y) = false)
    (hone : (lowerBound? x).isSome = !(lowerBound? y).isSome) :
    s.leastContaining join x y d = some Ty.anything := by
  unfold leastContaining
  rw [if_neg (by rw [hne]; exact Bool.false_ne_true)]
  split
  · rfl
  · cases hx : lowerBound? x <;> cases hy : lowerBound? y <;> simp [hx, hy] at hone ⊢

theorem leastContaining_bounds {x y : Ty} (hne : (x == y) = false) (hdepth : d < Limits.lubDepth)
    (hx : lowerBound? x = none) (hy : lowerBound? y = none) :
    s.leastContaining join x y d =
      (join (s.upperBound x) (s.upperBound y) (d + 1)).map s.argOfBound := by
  simp only [leastContaining, hne, Nat.not_le.2 hdepth, hx, hy, Bool.false_eq_true, if_false]
  rfl

/-- How the least type argument that holds two of them comes about at a depth. -/
theorem leastContaining_forms (x y : Ty) (d : Nat) :
    (x == y) = true ∨ (x == y) = false ∧
      (Limits.lubDepth ≤ d ∨ d < Limits.lubDepth ∧
        ((∃ p q, lowerBound? x = some p ∧ lowerBound? y = some q) ∨
          (lowerBound? x).isSome = !(lowerBound? y).isSome ∨
          lowerBound? x = none ∧ lowerBound? y = none)) := by
  cases x == y with
  | true => exact .inl rfl
  | false =>
    refine .inr ⟨rfl, ?_⟩
    rcases Nat.lt_or_ge d Limits.lubDepth with hdepth | hdepth
    · refine .inr ⟨hdepth, ?_⟩
      cases lowerBound? x with
      | none =>
        cases lowerBound? y with
        | none => exact .inr (.inr ⟨rfl, rfl⟩)
        | some q => exact .inr (.inl rfl)
      | some p =>
        cases lowerBound? y with
        | none => exact .inr (.inl rfl)
        | some q => exact .inl ⟨p, q, rfl, rfl⟩
    · exact .inl hdepth

/-! ### Budgets -/

theorem leastContaining_mono (hjoin : ∀ a b d r, join a b d = some r → join' a b d = some r)
    {x y r : Ty} (h : s.leastContaining join x y d = some r) :
    s.leastContaining join' x y d = some r := by
  rcases leastContaining_forms x y d with
    hsame | ⟨hne, hdepth | ⟨hdepth, ⟨p, q, hx, hy⟩ | hone | ⟨hx, hy⟩⟩⟩
  · rw [leastContaining_same hsame] at h ⊢
    exact h
  · rw [leastContaining_deep hne hdepth] at h ⊢
    exact h
  · rw [leastContaining_lower hne hdepth hx hy] at h ⊢
    exact h
  · rw [leastContaining_mixed hne hone] at h ⊢
    exact h
  · rw [leastContaining_bounds hne hdepth hx hy] at h ⊢
    rw [Option.map_eq_some_iff] at h
    obtain ⟨o, ho, hr⟩ := h
    rw [hjoin _ _ _ _ ho, Option.map_some, hr]

theorem joinAt_mono (hjoin : ∀ a b d r, join a b d = some r → join' a b d = some r)
    {c : ClassId} {r : Ty} (h : s.joinAt join a b d c = some r) :
    s.joinAt join' a b d c = some r := by
  by_cases hp : ∃ left right, Paired s c a b left right
  · obtain ⟨left, right, hp⟩ := hp
    rw [joinAt_paired hp, Option.map_eq_some_iff] at h
    obtain ⟨args, hargs, hr⟩ := h
    have hargs' := mapM_congr_of_eq_some hargs fun p _ t ht => leastContaining_mono hjoin ht
    rw [joinAt_paired hp, hargs', Option.map_some, hr]
  · have hraw : ∀ left right, ¬Paired s c a b left right := fun l r h => hp ⟨l, r, h⟩
    rw [joinAt_raw hraw] at h ⊢
    exact h

theorem lubStep_mono (hjoin : ∀ a b d r, join a b d = some r → join' a b d = some r)
    {r : Option Ty} (h : s.lubStep join a b d = some r) : s.lubStep join' a b d = some r := by
  rcases s.settled_or_apart a b with ⟨o, ho⟩ | ⟨a', b', hap⟩
  · rw [lubStep_settled ho] at h ⊢
    exact h
  · rcases forms a' b' with hvar | ⟨t, u, rfl, rfl⟩ | hone | hby
    · rw [lubStep_bounds hap hvar] at h ⊢
      exact hjoin _ _ _ _ h
    · rw [lubStep_arrays hap] at h ⊢
      split <;> rename_i hprim
      · rw [if_pos hprim] at h
        exact h
      · rw [if_neg hprim, Option.map_eq_some_iff] at h
        obtain ⟨o, ho, hr⟩ := h
        rw [hjoin _ _ _ _ ho, Option.map_some, hr]
    · rw [lubStep_oneArray hap hone] at h ⊢
      exact h
    · rw [lubStep_classes hap hby] at h ⊢
      rw [Option.map_eq_some_iff] at h
      obtain ⟨t, ht, hr⟩ := h
      unfold joinClasses at ht ⊢
      rw [Option.map_eq_some_iff] at ht
      obtain ⟨ts, hts, htr⟩ := ht
      have hts' := mapM_congr_of_eq_some hts fun c _ t ht => joinAt_mono hjoin ht
      rw [hts', Option.map_some, Option.map_some, htr, hr]

theorem lubWithin_mono {m n : Nat} {r : Option Ty} (h : s.lubWithin m a b d = some r)
    (hmn : m ≤ n) : s.lubWithin n a b d = some r := by
  induction m generalizing n a b d r with
  | zero => cases h
  | succ m ih =>
    obtain ⟨n, rfl⟩ : ∃ k, n = k + 1 := ⟨n - 1, by omega⟩
    exact lubStep_mono (fun a b d r hr => ih hr (Nat.le_of_succ_le_succ hmn)) h

theorem lubWithin_unique {m n : Nat} {r r' : Option Ty} (h : s.lubWithin m a b d = some r)
    (h' : s.lubWithin n a b d = some r') : r = r' := by
  rcases Nat.le_total m n with hmn | hnm
  · rw [lubWithin_mono h hmn] at h'
    exact Option.some.inj h'
  · rw [lubWithin_mono h' hnm] at h
    exact (Option.some.inj h).symm

theorem lubWithin_of_lub {c : Ty} (h : s.lub a b = some c) :
    ∃ n, s.lubWithin n a b 0 = some (some c) := by
  unfold lub at h
  refine ⟨s.lubBudget a b, ?_⟩
  cases hw : s.lubWithin (s.lubBudget a b) a b 0 with
  | none =>
    rw [hw] at h
    cases h
  | some o =>
    rw [hw] at h
    exact congrArg some h

theorem lubBudget_comm (s : Store) (a b : Ty) : s.lubBudget a b = s.lubBudget b a := by
  unfold lubBudget lubReach
  rw [Nat.add_comm a.size]

theorem lubBudget_pos (s : Store) (a b : Ty) : 0 < s.lubBudget a b := Nat.succ_pos _

end GenericCalls.Store
