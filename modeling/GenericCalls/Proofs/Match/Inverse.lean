import GenericCalls.Proofs.Match.Parameters
import GenericCalls.Proofs.Ty.Substitution

/-! # Matching a pattern against its instances

An instance of a pattern is the pattern with a type put in for the target. Matched against the
pattern, it gives back the type that was put in. Place by place the two have the same form, so a
place that does not mention the target says nothing, and the first one that does says all there is
to say. -/

namespace GenericCalls

/-- A type that is made of class types, arrays, type parameters, primitive types, `null` and
wildcards, where no wildcard bounds another. -/
inductive Ty.IsPattern : Ty → Prop where
  | prim (p : Primitive) : IsPattern (.prim p)
  | null : IsPattern .null
  | param (q : ParamId) : IsPattern (.param q)
  | array {t : Ty} (ht : IsPattern t) : IsPattern (.array t)
  | cls {c : ClassId} {args : List Ty} (hargs : ∀ t ∈ args, IsPattern t) : IsPattern (.cls c args)
  | wildOpen (k : WildcardKind) : IsPattern (.wild k none)
  | wild {k : WildcardKind} {b : Ty} (hb : IsPattern b) (hbound : b.isWild = false) :
      IsPattern (.wild k (some b))

/-- A type is known, and is neither a wildcard nor a captured one. -/
structure Ty.Definite (x : Ty) : Prop where
  wild : x.isWild = false
  reopen : x.reopen = x
  known : (x.isNull || x.isUnknown) = false

theorem Ty.definite_of_class_or_array {x : Ty}
    (h : x.asClass?.isSome = true ∨ x.component?.isSome = true) : x.Definite := by
  cases x with
  | cls c args => exact ⟨rfl, rfl, rfl⟩
  | array t => exact ⟨rfl, rfl, rfl⟩
  | _ => rcases h with h | h <;> cases h

def Substitution.single (p : ParamId) (t : Ty) : Substitution := empty.putTy p t

namespace Substitution

variable {target : ParamId} {x : Ty}

theorem get?_single (q : ParamId) :
    (single target x).get? q = if target = q then some (.bound x) else none := get?_put ..

theorem get?_single_ne_erased (q : ParamId) : (single target x).get? q ≠ some .erased := by
  rw [get?_single]
  split <;> nofun

theorem isWild_of_get?_single (hx : x.isWild = false) (q : ParamId) (t : Ty)
    (h : (single target x).get? q = some (.bound t)) : t.isWild = false := by
  rw [get?_single] at h
  split at h <;> cases h
  exact hx

/-- A bound that is no wildcard stays the bound of its wildcard. -/
theorem exists_apply_single_wild {k : WildcardKind} {b u : Ty} (hx : x.isWild = false)
    (hb : b.isWild = false) (h : apply (single target x).get? (.wild k (some b)) = some u) :
    ∃ v, u = .wild k (some v) ∧ apply (single target x).get? b = some v := by
  obtain ⟨v, hv⟩ := Option.isSome_iff_exists.1 (apply_isSome get?_single_ne_erased b)
  have hwild := isWild_of_apply (isWild_of_get?_single hx) hv hb
  rw [apply, hv, Option.some_inj] at h
  refine ⟨v, ?_, hv⟩
  cases v with
  | wild _ _ => cases hwild
  | _ => exact h.symm

/-- `?` stands in an instance only where it stands in the pattern. -/
theorem stated_of_apply_single {p u : Ty} (hx : x.isWild = false) (hp : p.IsPattern)
    (hstated : ∀ k, p ≠ .wild k none) (h : apply (single target x).get? p = some u)
    (k : WildcardKind) : u ≠ .wild k none := by
  cases hp with
  | wildOpen k => exact absurd rfl (hstated k)
  | wild _ hbound =>
    obtain ⟨v, rfl, _⟩ := exists_apply_single_wild hx hbound h
    nofun
  | _ =>
    have hwild := isWild_of_apply (isWild_of_get?_single hx) h rfl
    rintro rfl
    cases hwild

end Substitution

namespace Store

open Substitution

variable {s : Store} {target : ParamId} {x : Ty}

/-! ### What a place tells -/

/-- A match tells the type `x`, if it is to tell anything, and nothing else. -/
def Tells (x : Ty) (anything : Bool) (r : Option MatchResult) : Prop :=
  if anything then ∃ b, r = some (.found ⟨x, b⟩) else r = some .noInfo

/-- The first place that mentions the target tells what all places tell. -/
theorem matchArgs_tells {go : Ty → Ty → Option MatchResult} (hx : x.isWild = false)
    {ps us : List Ty} (h : List.Forall₂ (fun p u => Tells x (p.mentions target) (go p u)) ps us) :
    Tells x (Ty.mentionsAny target ps) (matchArgs go none (ps.zip us)) := by
  induction h with
  | nil => exact rfl
  | @cons p u ps us hpu _ ih =>
    rw [List.zip_cons_cons, matchArgs, Ty.mentionsAny]
    cases hp : p.mentions target with
    | true =>
      rw [hp] at hpu
      obtain ⟨b, hb⟩ := hpu
      refine ⟨b, ?_⟩
      simp only [hb, hx, Bool.false_eq_true, if_false]
    | false =>
      rw [hp] at hpu
      simp only [show go p u = some .noInfo from hpu]
      exact ih

theorem forall₂_mapIdx {α β γ : Type} {S : α → β → Prop} {R : α → γ → Prop} {g : Nat → β → γ}
    (hg : ∀ i a b, S a b → R a (g i b)) {as : List α} {bs : List β} (h : List.Forall₂ S as bs) :
    List.Forall₂ R as (bs.mapIdx g) := by
  induction h generalizing g with
  | nil => exact .nil
  | cons hab _ ih =>
    rw [List.mapIdx_cons]
    exact .cons (hg 0 _ _ hab) (ih fun i => hg (i + 1))

/-! ### Matching an instance -/

theorem matchWithin_wildOpen (s : Store) (target : ParamId) (n : Nat) (k : WildcardKind) (t : Ty)
    (b : Bearing) (depth : Nat) :
    s.matchWithin target (n + 1) (.wild k none) t b depth = some .noInfo := rfl

/-- A place tells the same however its argument is promoted. -/
theorem tells_promote {n : Nat} {p u : Ty} {b : Bearing} {depth : Nat} (hx : x.isWild = false)
    (hp : p.IsPattern) (hu : apply (single target x).get? p = some u)
    (h : Tells x (p.mentions target) (s.matchWithin target (n + 1) p u b depth)) (c : ClassId)
    (i : Nat) :
    Tells x (p.mentions target) (s.matchWithin target (n + 1) p (s.promote c i u) b depth) := by
  by_cases hopen : ∃ k, p = .wild k none
  · obtain ⟨k, rfl⟩ := hopen
    exact matchWithin_wildOpen ..
  · rw [not_exists] at hopen
    rw [promote_of_stated (stated_of_apply_single hx hp hopen hu)]
    exact h

theorem matchClass_of_length {go : Ty → Ty → Option MatchResult} {c : ClassId} {ps us : List Ty}
    (hlength : us.length = ps.length) : s.matchClass target go ⟨c, ps⟩ ⟨c, us⟩ =
      matchArgs go none (ps.zip (s.promoteAll ⟨c, us⟩)) := by
  have hempty : (us.isEmpty && !ps.isEmpty) = false := by
    cases us with
    | nil =>
      obtain rfl := List.length_eq_zero_iff.1 hlength.symm
      rfl
    | cons _ _ => rfl
  have hpairs : pairArgs ps (s.promoteAll ⟨c, us⟩) = ps.zip (s.promoteAll ⟨c, us⟩) := by
    unfold pairArgs promoteAll
    rw [List.length_mapIdx, if_pos hlength.symm]
  rw [matchClass, hempty, hpairs]
  rfl

theorem matchWithin_single_param (hx : x.Definite) (q : ParamId) {u : Ty} (n : Nat)
    (hu : apply (single target x).get? (.param q) = some u) (b : Bearing) (depth : Nat) :
    Tells x ((Ty.param q).mentions target) (s.matchWithin target (n + 1) (.param q) u b depth) := by
  rw [apply, get?_single] at hu
  by_cases hq : target = q
  · subst hq
    rw [if_pos rfl] at hu
    cases hu
    have htarget : (Ty.param target).isParam target = true := beq_self_eq_true target
    have hmentions : (Ty.param target).mentions target = true := htarget
    rw [hmentions]
    refine ⟨b, ?_⟩
    simp only [matchWithin, matchStep, if_pos htarget, hx.reopen, hx.wild, hx.known,
      Bool.false_and, Bool.false_eq_true, if_false]
  · rw [if_neg hq] at hu
    cases hu
    have htarget : (Ty.param q).isParam target = false := beq_false_of_ne (Ne.symm hq)
    have hmentions : (Ty.param q).mentions target = false := htarget
    rw [hmentions]
    simp only [matchWithin, matchStep, htarget, Bool.false_eq_true, if_false]
    rfl

theorem matchWithin_wild (s : Store) (target : ParamId) (n : Nat) (k : WildcardKind) (p t : Ty)
    (b : Bearing) (depth : Nat) :
    ∃ b', s.matchWithin target (n + 1) (.wild k (some p)) (.wild k (some t)) b depth =
      s.matchWithin target n p t b' depth := ⟨_, if_pos rfl⟩

/-- Matching a pattern against its instance tells the type that was put in, if the pattern mentions
the target at all. -/
theorem matchWithin_instance (hx : x.Definite) {p : Ty} (hp : p.IsPattern) {n : Nat}
    (hn : p.size ≤ n + 1) {u : Ty} (hu : apply (single target x).get? p = some u) (b : Bearing)
    (depth : Nat) : Tells x (p.mentions target) (s.matchWithin target (n + 1) p u b depth) := by
  -- The budget leaves a step for every part of the pattern.
  have hstep {t : Ty} {n : Nat} (ht : t.size + 1 ≤ n + 1) : ∃ m, n = m + 1 ∧ t.size ≤ m + 1 :=
    ⟨n - 1, by have := t.size_pos; omega, by omega⟩
  induction hp generalizing n u b depth with
  | param q => exact matchWithin_single_param hx q n hu b depth
  | wildOpen k => exact matchWithin_wildOpen ..
  | array hp ih =>
    obtain ⟨v, hv, rfl⟩ := Option.map_eq_some_iff.1 hu
    obtain ⟨m, rfl, hm⟩ := hstep hn
    exact ih hm hv b depth
  | @wild k bound hp hbound ih =>
    obtain ⟨v, rfl, hv⟩ := exists_apply_single_wild hx.wild hbound hu
    obtain ⟨m, rfl, hm⟩ := hstep hn
    obtain ⟨b', hb'⟩ := matchWithin_wild s target (m + 1) k bound v b depth
    rw [hb']
    exact ih hm hv b' depth
  | @cls c args hargs ih =>
    obtain ⟨us, hus⟩ := Option.isSome_iff_exists.1 <|
      applyAll_isSome fun t (_ : t ∈ args) => apply_isSome get?_single_ne_erased t
    rw [apply, hus] at hu
    obtain rfl : Ty.cls c us = u := Option.some.inj hu
    have hgo : s.matchWithin target (n + 1) (.cls c args) (.cls c us) b depth =
        s.matchClass target (s.matchWithin target n · · .exactly (depth + 1)) ⟨c, args⟩ ⟨c, us⟩ :=
      if_pos rfl
    rw [hgo, matchClass_of_length (length_applyAll hus)]
    refine matchArgs_tells hx.wild (forall₂_mapIdx ?_
      ((List.forall₂_and_left _ _).2 ⟨fun t ht => ht, applyAll_eq_some_iff.1 hus⟩))
    rintro i t v ⟨ht, hv⟩
    have hsize : t.size + 1 ≤ n + 1 :=
      Nat.le_trans (Nat.succ_le_succ (Ty.size_le_sizeAll ht)) hn
    obtain ⟨m, rfl, hm⟩ := hstep hsize
    exact tells_promote hx.wild (hargs t ht) hv (ih t ht hm hv _ _) c i
  | _ =>
    cases hu
    rfl

/-! ### Constraints -/

theorem exists_apply_single_cls (target : ParamId) (x : Ty) (p : ClassTy) :
    ∃ args, apply (single target x).get? p.toTy = some (.cls p.id args) := by
  obtain ⟨args, hargs⟩ := Option.isSome_iff_exists.1 <|
    applyAll_isSome fun t (_ : t ∈ p.args) => apply_isSome get?_single_ne_erased t
  refine ⟨args, ?_⟩
  rw [ClassTy.toTy, apply, hargs]
  rfl

theorem matchTypes_instance (hx : x.Definite) {p : ClassTy} (hp : p.toTy.IsPattern)
    (htarget : p.toTy.mentions target = true) {args : List Ty}
    (hargs : apply (single target x).get? p.toTy = some (.cls p.id args)) (b : Bearing) :
    ∃ b', s.matchTypes target p.toTy (.cls p.id args) b 0 = .found ⟨x, b'⟩ := by
  have hsize : p.toTy.size ≤ matchBudget p.toTy (.cls p.id args) := by
    unfold matchBudget
    omega
  obtain ⟨n, hn⟩ : ∃ n, matchBudget p.toTy (.cls p.id args) = n + 1 :=
    ⟨_, (Nat.succ_pred_eq_of_pos (Nat.lt_of_lt_of_le p.toTy.size_pos hsize)).symm⟩
  have htells := matchWithin_instance (s := s) hx hp (hn ▸ hsize) hargs b 0
  rw [htarget] at htells
  obtain ⟨b', hb'⟩ := htells
  refine ⟨b', ?_⟩
  rw [matchTypes, hn, hb']
  rfl

/-- Matching inverts substitution. Let a class type pattern mention the target, anywhere and as
often as it may, and let a class type or an array be put in for the target. A class type that is
seen at the class of the pattern with the resulting type arguments tells exactly the type that was
put in when it is passed to the pattern, and so does the instance itself when the pattern is
returned. -/
theorem constrain_instance (s : Store) {target : ParamId} {p : ClassTy} {x : Ty}
    (hp : p.toTy.IsPattern) (htarget : p.toTy.mentions target = true)
    (hx : x.asClass?.isSome = true ∨ x.component?.isSome = true) :
    ∃ args, (single target x).substitute p.toTy = some (.cls p.id args) ∧
      (∀ arg : ClassTy, s.ancestorArgs arg p.id = some args →
        ∃ b, s.constrain target .intoFormal p.toTy arg.toTy = .found ⟨x, b⟩) ∧
      ∃ b, s.constrain target .intoContext p.toTy (.cls p.id args) = .found ⟨x, b⟩ := by
  obtain ⟨args, hargs⟩ := exists_apply_single_cls target x p
  obtain ⟨b, hb⟩ :=
    matchTypes_instance (s := s) (Ty.definite_of_class_or_array hx) hp htarget hargs .atLeast
  refine ⟨args, hargs, fun arg harg => ⟨b, ?_⟩, b, ?_⟩
  · have hlift : s.liftWithin p.id Limits.liftSteps arg.toTy = some ⟨p.id, args⟩ :=
      congrArg (Option.map (ClassTy.mk p.id)) harg
    have hconstrain : s.constrain target .intoFormal p.toTy arg.toTy =
        s.constrainClass target .intoFormal p arg.toTy := rfl
    simp only [hconstrain, constrainClass, hlift]
    exact hb
  · have hself : s.ancestorArgs p p.id = some p.args := ancestorArgs_self s p
    have hconstrain : s.constrain target .intoContext p.toTy (.cls p.id args) =
        s.constrainClass target .intoContext p (.cls p.id args) := rfl
    simp only [hconstrain, constrainClass, hself]
    exact hb

/-- The built-in classes with interfaces `List<E>` and `Map<K, V>`, a class `Index<I>` that inherits
from `Map<List<? super I>, I[]>`, and a method `<T> m()`. -/
def indexes : Store :=
  let (s, list) := standard.declareClass "List" .interface
  let (s, _) := s.declareParam "E" (.cls list)
  let (s, map) := s.declareClass "Map" .interface
  let (s, _) := s.declareParam "K" (.cls map)
  let (s, _) := s.declareParam "V" (.cls map)
  let (s, index) := s.declareClass "Index" .concrete
  let (s, i) := s.declareParam "I" (.cls index)
  let s := s.addSupertype index ⟨map, [.cls list [.above (.param i)], .array (.param i)]⟩
  let (s, m) := s.declareMethod "m" .method none
  (s.declareParam "T" (.method m)).1

/-- From an `Index<List<String>>` that is passed to a `Map<List<? super T>, T[]>`, the parameter `T`
is found to be `List<String>`. -/
theorem constrain_instance_indexes :
    let p : ClassTy := ⟨15, [.cls 13 [.above (.param 21)], .array (.param 21)]⟩
    let x : Ty := .cls 13 [.raw 4]
    p.toTy.IsPattern ∧ p.toTy.mentions 21 = true ∧ x.asClass?.isSome = true ∧
      (∃ b, indexes.constrain 21 .intoFormal p.toTy (.cls 18 [x]) = .found ⟨x, b⟩) ∧
      ∃ b, indexes.constrain 21 .intoContext p.toTy (.cls 15 [.cls 13 [.above x], .array x]) =
        .found ⟨x, b⟩ := by
  intro p x
  have hp : p.toTy.IsPattern := .cls (List.forall_mem_cons.2
    ⟨.cls (List.forall_mem_singleton.2 (.wild (.param 21) rfl)),
      List.forall_mem_singleton.2 (.array (.param 21))⟩)
  have htarget : p.toTy.mentions 21 = true := by decide
  obtain ⟨args, hargs, hformal, hcontext⟩ :=
    constrain_instance indexes hp htarget (x := x) (.inl rfl)
  have hseen : indexes.ancestorArgs ⟨18, [x]⟩ 15 = some args := by
    cases hargs
    rfl
  cases hargs
  exact ⟨hp, htarget, rfl, hformal ⟨18, [x]⟩ hseen, hcontext⟩

end Store

end GenericCalls
