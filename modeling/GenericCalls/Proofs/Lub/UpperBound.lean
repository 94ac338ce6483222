import GenericCalls.Proofs.Lub.Classes
import GenericCalls.Proofs.Lub.Commutative
import GenericCalls.Proofs.Lub.Results

/-! # Least upper bounds are upper bounds

In a regular store the least upper bound of two regular types accepts both. It is shown without the
limit on nested checks first, by induction on the steps of the computation: a bound is accepted
where the types it bounds are, and a type argument is held by what accepts its bound. The limit
comes in because the computation itself asks for checks, and must not be misled by it. -/

namespace GenericCalls.Store

open Ty

variable {s : Store} {a b a' b' c x y z : Ty} {d n : Nat}

/-! ### Settled joins -/

theorem accepts_of_boxed (h : Boxed s a b a' b') (href : c.isReference = true)
    (hnull : c.isNull = false) (hleft : Accepts s true c a') (hright : Accepts s true c b') :
    Accepts s true c a ∧ Accepts s true c b :=
  ⟨accepts_of_box h.left href hnull hleft, accepts_of_box h.right href hnull hright⟩

theorem accepts_of_leftNull (h : Boxed s a b a' b') (hnull : a'.isNull = true)
    (hb : b.regular = true) : Accepts s true b' a ∧ Accepts s true b' b := by
  have hknown := isUnknown_of_regular (regular_of_box h.right hb)
  have hvalue := h.rightValue_of_leftNull hnull
  have href := isReference_of_box h.right hb
  rw [eq_null_of_box h.left hnull]
  exact ⟨accepts_iff.2 (.null hknown), accepts_of_box h.right href hvalue (accepts_self hknown)⟩

theorem accepts_of_settled (h : Settled s a b (some c)) (ha : a.regular = true)
    (hb : b.regular = true) : Accepts s true c a ∧ Accepts s true c b := by
  cases h with
  | same _ hsame =>
    have hknown := isUnknown_of_regular ha
    exact ⟨accepts_self hknown, accepts_same hknown hsame⟩
  | leftNull h hnull => exact accepts_of_leftNull h hnull hb
  | rightNull h _ hnull => exact (accepts_of_leftNull h.symm hnull ha).symm
  | @either a' b' h habove hbelow =>
    have hleft := isReference_of_box h.left ha
    have hright := isReference_of_box h.right hb
    rcases chooseForm_eq a' b' with hform | hform
    · have hself : Accepts s true a' a' := accepts_self (isReference_iff.1 hleft).1
      rw [hform]
      exact accepts_of_boxed h.toBoxed hleft h.leftValue hself (accepts_of_assignable habove)
    · have hself : Accepts s true b' b' := accepts_self (isReference_iff.1 hright).1
      rw [hform]
      exact accepts_of_boxed h.toBoxed hright h.rightValue (accepts_of_assignable hbelow) hself
  | left h habove _ =>
    have href := isReference_of_box h.left ha
    have hself : Accepts s true c c := accepts_self (isReference_iff.1 href).1
    exact accepts_of_boxed h.toBoxed href h.leftValue hself (accepts_of_assignable habove)
  | right h _ hbelow =>
    have href := isReference_of_box h.right hb
    have hself : Accepts s true c c := accepts_self (isReference_iff.1 href).1
    exact accepts_of_boxed h.toBoxed href h.rightValue (accepts_of_assignable hbelow) hself

/-! ### Joins with the root class -/

theorem isObject_of_chooseForm (hroot : RootBare s) (href : b.isReference = true)
    (hnull : b.isNull = false) (h : Accepts s true b s.object) :
    s.isObject (chooseForm s.object b) = true := by
  have hobject : s.isObject s.object = true := beq_self_eq_true s.root
  cases hplain : b.isPlain with
  | true =>
    rcases chooseForm_eq s.object b with hform | hform
    · rw [hform]
      exact hobject
    · rw [hform]
      exact isObject_of_accepts_object hroot hplain h
  | false =>
    -- Wildcards and intersections come after classes in the order of types.
    cases b with
    | wild k t => exact hobject
    | inter ts => exact hobject
    | prim p => cases href
    | null => cases hnull
    | unknown => cases href
    | _ => cases hplain

theorem Regular.isObject_of_lub_object (hs : s.Regular) (hb : b.regular = true)
    (hfree : b.isPrim = true ∨ b.primFree = true) (hlimit : ComparedWithinLimit s s.object b)
    (h : s.lubWithin n s.object b d = some (some c)) : s.isObject c = true := by
  have hobject : s.isObject s.object = true := beq_self_eq_true s.root
  have habove {a' b' : Ty} (hc : Compared s s.object b a' b') : s.assignable a' b' = true := by
    obtain rfl := eq_of_box_cls hc.left
    have hregular := regular_of_box hc.right hb
    have hfree' := primFree_of_box hc.right hfree
    exact (hlimit _ _ hc).1.assignable (hs.accepts_of_isObject hobject hfree' hregular)
  cases n with
  | zero => cases h
  | succ n =>
    have h : s.lubStep (s.lubWithin n) s.object b d = some (some c) := h
    rcases s.settled_or_apart s.object b with ⟨r, hr⟩ | ⟨a', b', hap⟩
    · rw [lubStep_settled hr] at h
      cases h
      cases hr with
      | same _ _ => exact hobject
      | leftNull hboxed hnull =>
        obtain rfl := eq_of_box_cls hboxed.left
        cases hnull
      | rightNull hboxed _ _ =>
        obtain rfl := eq_of_box_cls hboxed.left
        exact hobject
      | @either a' b' hc _ hbelow =>
        obtain rfl := eq_of_box_cls hc.left
        exact isObject_of_chooseForm hs.rootBare (isReference_of_box hc.right hb) hc.rightValue
          (accepts_of_assignable hbelow)
      | left hc _ _ =>
        obtain rfl := eq_of_box_cls hc.left
        exact hobject
      | right hc hnot _ =>
        rw [habove hc] at hnot
        cases hnot
    · have hnot := hap.notAbove
      rw [habove hap.toCompared] at hnot
      cases hnot

theorem Regular.isObject_of_lub (hs : s.Regular) (ha : a.regular = true) (hb : b.regular = true)
    (hfa : a.isPrim = true ∨ a.primFree = true) (hfb : b.isPrim = true ∨ b.primFree = true)
    (hlimit : ComparedWithinLimit s a b) (h : s.lubWithin n a b d = some (some c))
    (hobject : a = s.object ∨ b = s.object) : s.isObject c = true := by
  rcases hobject with rfl | rfl
  · exact hs.isObject_of_lub_object hb hfb hlimit h
  · have hrel := s.lubWithin_mirrored n a s.object d
    rw [h] at hrel
    generalize hr : s.lubWithin n s.object a d = o at hrel
    cases hrel with
    | some hm =>
      cases hm with
      | present htwins =>
        rw [htwins.object]
        exact hs.isObject_of_lub_object ha hfa hlimit.symm hr

/-! ### Type arguments -/

/-- The least upper bound of two bounds, one of which is solid, accepts a variable when it accepts
the solid bound of it. -/
theorem Outcome.accepts_of_accepts_upperBound (h : Outcome s a b c) (hroot : RootBare s)
    (ha : a.regular = true) (hb : b.regular = true) (hfa : a.isPrim = true ∨ a.primFree = true)
    (hfb : b.isPrim = true ∨ b.primFree = true) (hsolid : a.solid = true ∨ b.solid = true) {v : Ty}
    (hv : v.isVariable = true) (hbound : (s.upperBound v).solid = true)
    (hc : Accepts s true c (s.upperBound v)) : Accepts s true c v := by
  have hlift {t : Ty} (hfree : t.primFree = true) (ht : t.regular = true)
      (h : Accepts s true t (s.upperBound v)) : Accepts s true t v :=
    Store.accepts_of_accepts_upperBound hroot t hfree ht hv hbound h
  cases h with
  | same hsame =>
    refine hlift (hfa.resolve_left fun hprim => ?_) ha hc
    cases a with
    | prim p =>
      cases b with
      | prim q => rcases hsolid with h | h <;> cases h
      | _ => cases hsame
    | _ => cases hprim
  | left h _ => exact hlift (primFree_of_box h hfa) (regular_of_box h ha) hc
  | right h _ => exact hlift (primFree_of_box h hfb) (regular_of_box h hb) hc
  | solid h => exact (lifts_of_solid hroot c h).bound v hv hc

theorem regular_of_lowerBound {u : Ty} (hx : x.regular = true) (h : lowerBound? x = some u) :
    u.regular = true := by
  unfold lowerBound? at h
  cases x with
  | wild k b =>
    cases k with
    | upper => cases h
    | lower =>
      cases b <;> cases h
      exact (regular_wild_iff.1 hx).2
  | captured i k b =>
    cases k with
    | upper => cases h
    | lower =>
      cases b <;> cases h
      exact (regular_captured_iff.1 hx).2
  | _ => cases h

theorem under_argOfBound {m : Ty} (hknown : x.isUnknown = false)
    (hm : Accepts s true m (s.upperBound x))
    (hobject : s.upperBound x = s.object → s.isObject m = true)
    (hparam : ∀ p, x = .param p → Accepts s true m x) : Under s true (s.argOfBound (some m)) x := by
  rw [argOfBound]
  cases s.isObject m with
  | true => exact under_anything x
  | false => exact under_extending hknown hm hobject hparam

/-- The type argument made from the least upper bound of two bounds holds what they bound. -/
theorem Regular.under_of_bounds (hs : s.Regular) {o : Option Ty} (hx : x.regular = true)
    (hy : y.regular = true) (hlimit : JoinsWithinLimit s (s.upperBound x) (s.upperBound y) d)
    (h : s.lubWithin n (s.upperBound x) (s.upperBound y) d = some o)
    (haccepts : ∀ m, o = some m → Accepts s true m (s.upperBound x) ∧
      Accepts s true m (s.upperBound y)) :
    Under s true (s.argOfBound o) x ∧ Under s true (s.argOfBound o) y := by
  cases o with
  | none => exact ⟨under_anything x, under_anything y⟩
  | some m =>
    obtain ⟨hmx, hmy⟩ := haccepts m rfl
    have hrx := hs.regular_upperBound hx
    have hry := hs.regular_upperBound hy
    have hfx := hs.isPrim_or_primFree_upperBound hx
    have hfy := hs.isPrim_or_primFree_upperBound hy
    have hobject := hs.isObject_of_lub hrx hry hfx hfy hlimit.here h
    have hout := hs.outcome hrx hry hlimit h
    have hlift := hout.accepts_of_accepts_upperBound hs.rootBare hrx hry hfx hfy
    constructor
    · refine under_argOfBound (isUnknown_of_regular hx) hmx (fun hbound => hobject (.inl hbound)) ?_
      rintro p rfl
      have hsolid := (hs.upperBound_param p).1
      exact hlift (.inl hsolid) rfl hsolid hmx
    · refine under_argOfBound (isUnknown_of_regular hy) hmy (fun hbound => hobject (.inr hbound)) ?_
      rintro p rfl
      have hsolid := (hs.upperBound_param p).1
      exact hlift (.inr hsolid) rfl hsolid hmy

/-- What the induction on the steps of a join provides for the joins it asks for. -/
def JoinsAbove (s : Store) (n : Nat) : Prop :=
  ∀ a b d c, a.regular = true → b.regular = true → JoinsWithinLimit s a b d →
    s.lubWithin n a b d = some (some c) → Accepts s true c a ∧ Accepts s true c b

theorem Regular.under_leastContaining (hs : s.Regular) (habove : JoinsAbove s n)
    (hlimit : JoinsWithinLimit s a b d) (hx : x.regular = true) (hy : y.regular = true)
    (hholds : (x == y) = false → d < Limits.lubDepth → Holds s a b d x y)
    (h : s.leastContaining (s.lubWithin n) x y d = some z) :
    Under s true z x ∧ Under s true z y := by
  rcases leastContaining_forms x y d with
    hsame | ⟨hne, hdepth | ⟨hdepth, ⟨p, q, hp, hq⟩ | hone | ⟨hnx, hny⟩⟩⟩
  · rw [leastContaining_same hsame] at h
    cases h
    exact ⟨under_same hx (BEq.refl x), under_same hx hsame⟩
  · rw [leastContaining_deep hne hdepth] at h
    cases h
    exact ⟨under_anything x, under_anything y⟩
  · rw [leastContaining_lower hne hdepth hp hq] at h
    have hself {t u : Ty} (ht : t.regular = true) (hu : lowerBound? t = some u) :
        Accepts s true u u := accepts_self (isUnknown_of_regular (regular_of_lowerBound ht hu))
    cases habove : s.assignable p q with
    | true =>
      rw [habove, if_pos rfl] at h
      cases h
      exact ⟨under_above hp (accepts_of_assignable habove), under_above hq (hself hy hq)⟩
    | false =>
      rw [habove, if_neg Bool.false_ne_true] at h
      cases hbelow : s.assignable q p with
      | true =>
        rw [hbelow, if_pos rfl] at h
        cases h
        exact ⟨under_above hp (hself hx hp), under_above hq (accepts_of_assignable hbelow)⟩
      | false =>
        rw [hbelow, if_neg Bool.false_ne_true] at h
        cases h
        exact ⟨under_anything x, under_anything y⟩
  · rw [leastContaining_mixed hne hone] at h
    cases h
    exact ⟨under_anything x, under_anything y⟩
  · rw [leastContaining_bounds hne hdepth hnx hny, Option.map_eq_some_iff] at h
    obtain ⟨o, ho, rfl⟩ := h
    have hlimit' := hlimit.call (.arguments (hholds hne hdepth) hnx hny)
    refine hs.under_of_bounds hx hy hlimit' ho fun m hm => ?_
    rw [hm] at ho
    exact habove _ _ _ m (hs.regular_upperBound hx) (hs.regular_upperBound hy) hlimit' ho

/-! ### Classes -/

theorem forall_zip_of_mapM {α β : Type} {f : α × α → Option β} {P : β → α → Prop}
    {xs ys : List α} {zs : List β} (hlength : xs.length = ys.length)
    (h : (xs.zip ys).mapM f = some zs)
    (hf : ∀ x y z, (x, y) ∈ xs.zip ys → f (x, y) = some z → P z x ∧ P z y) :
    (∀ p ∈ zs.zip xs, P p.1 p.2) ∧ ∀ p ∈ zs.zip ys, P p.1 p.2 := by
  rw [mapM_eq_some_iff] at h
  induction xs generalizing ys zs with
  | nil =>
    cases ys with
    | cons y ys => cases hlength
    | nil =>
      cases zs with
      | cons z zs => cases h
      | nil => exact ⟨nofun, nofun⟩
  | cons x xs ih =>
    cases ys with
    | nil => cases hlength
    | cons y ys =>
      cases zs with
      | nil => cases h
      | cons z zs =>
        rw [List.zip_cons_cons, List.map_cons, List.map_cons, List.cons.injEq] at h
        obtain ⟨hx, hy⟩ := hf x y z List.mem_cons_self h.1
        obtain ⟨hxs, hys⟩ := ih (Nat.succ.inj hlength) h.2 fun x' y' z' hmem =>
          hf x' y' z' (List.mem_cons_of_mem _ hmem)
        exact ⟨List.forall_mem_cons.2 ⟨hx, hxs⟩, List.forall_mem_cons.2 ⟨hy, hys⟩⟩

theorem solid_of_box_of_not_variable (h : s.box? a = some a') (ha : a.regular = true)
    (hvar : a'.isVariable = false) (hnull : a'.isNull = false) : a'.solid = true := by
  have hwild : a'.isWild = false := by
    cases a' with
    | wild k b => cases hvar
    | _ => rfl
  have hprim := isPrim_of_isReference (isReference_of_box h ha)
  have hjoinable := joinable_of_regular (regular_of_box h ha) hwild
  rwa [joinable, hprim, hnull, Bool.or_false, Bool.or_false] at hjoinable

theorem Compared.solid_of_noVariable (h : Compared s a b a' b') (ha : a.regular = true)
    (hb : b.regular = true) (hvar : (a'.isVariable || b'.isVariable) = false) :
    a'.solid = true ∧ b'.solid = true := by
  rw [Bool.or_eq_false_iff] at hvar
  exact ⟨solid_of_box_of_not_variable h.left ha hvar.1 h.leftValue,
    solid_of_box_of_not_variable h.right hb hvar.2 h.rightValue⟩

/-- A common class with the least type arguments that hold those seen from two types accepts both
types. -/
theorem Regular.accepts_of_joinAt (hs : s.Regular) (habove : JoinsAbove s n)
    (hlimit : JoinsWithinLimit s a b d) (ha : a.regular = true) (hb : b.regular = true)
    (hap : Apart s a b a' b') (hby : ByClasses a' b') {e : ClassId}
    (he : e ∈ s.commonClasses a' b') (h : s.joinAt (s.lubWithin n) a' b' d e = some c) :
    Accepts s true c a' ∧ Accepts s true c b' := by
  have ha' := regular_of_box hap.left ha
  have hb' := regular_of_box hap.right hb
  by_cases hp : ∃ left right, Paired s e a' b' left right
  · obtain ⟨left, right, hp⟩ := hp
    rw [joinAt_paired hp, Option.map_eq_some_iff] at h
    obtain ⟨args, hargs, rfl⟩ := h
    have hleft := regularAll_iff.1 (hs.regular_argsAt a' ha' hp.leftArgs)
    have hright := regularAll_iff.1 (hs.regular_argsAt b' hb' hp.rightArgs)
    have hunder : ∀ x y z, (x, y) ∈ left.zip right →
        s.leastContaining (s.lubWithin n) x y d = some z → Under s true z x ∧ Under s true z y := by
      intro x y z hmem hz
      obtain ⟨hx, hy⟩ := List.of_mem_zip hmem
      have hholds (hne : (x == y) = false) (hdepth : d < Limits.lubDepth) : Holds s a b d x y :=
        ⟨hap, hby, he, hp, hmem, hne, hdepth⟩
      exact hs.under_leastContaining habove hlimit (hleft x hx) (hright y hy) hholds hz
    obtain ⟨hunderLeft, hunderRight⟩ := forall_zip_of_mapM hp.length hargs hunder
    exact ⟨accepts_of_argsAt a' hp.leftArgs hunderLeft,
      accepts_of_argsAt b' hp.rightArgs hunderRight⟩
  · rw [joinAt_raw fun l r hlr => hp ⟨l, r, hlr⟩] at h
    cases h
    obtain ⟨hsa, hsb⟩ := hap.toCompared.solid_of_noVariable ha hb hby.noVariable
    obtain ⟨hmemLeft, hmemRight⟩ := mem_reachable_of_mem_commonClasses he
    exact ⟨hs.accepts_raw hsa ha' hmemLeft, hs.accepts_raw hsb hb' hmemRight⟩

theorem Regular.accepts_of_meetOf (hs : s.Regular) {ts : List Ty} (hsolid : a.solid = true)
    (hregular : a.regular = true) (h : ∀ t ∈ ts, Accepts s true t a) :
    Accepts s true (s.meetOf ts) a := by
  match ts with
  | [] => exact hs.accepts_of_isObject (beq_self_eq_true s.root) (primFree_of_solid hsolid) hregular
  | [t] => exact h t List.mem_cons_self
  | _ :: _ :: _ => exact accepts_iff.2 (.each (isReference_of_solid hsolid) h)

theorem Regular.accepts_of_joinClasses (hs : s.Regular) (habove : JoinsAbove s n)
    (hlimit : JoinsWithinLimit s a b d) (ha : a.regular = true) (hb : b.regular = true)
    (hap : Apart s a b a' b') (hby : ByClasses a' b')
    (h : s.joinClasses (s.lubWithin n) a' b' d = some c) :
    Accepts s true c a' ∧ Accepts s true c b' := by
  unfold joinClasses at h
  rw [Option.map_eq_some_iff] at h
  obtain ⟨ts, hts, rfl⟩ := h
  rw [mapM_eq_some_iff] at hts
  have heach : ∀ t ∈ ts, Accepts s true t a' ∧ Accepts s true t b' := by
    intro t ht
    have hmem : some t ∈ ts.map some := List.mem_map_of_mem ht
    rw [← hts] at hmem
    obtain ⟨e, he, hjoin⟩ := List.mem_map.1 hmem
    exact hs.accepts_of_joinAt habove hlimit ha hb hap hby he hjoin
  obtain ⟨hsa, hsb⟩ := hap.toCompared.solid_of_noVariable ha hb hby.noVariable
  have hra := regular_of_box hap.left ha
  have hrb := regular_of_box hap.right hb
  exact ⟨hs.accepts_of_meetOf hsa hra fun t ht => (heach t ht).1,
    hs.accepts_of_meetOf hsb hrb fun t ht => (heach t ht).2⟩

/-! ### Arrays -/

theorem Outcome.isPrim (h : Outcome s a b c) (ha : a.regular = true) (hb : b.regular = true)
    (hprim : a.isPrim = false) : c.isPrim = false := by
  cases h with
  | same _ => exact hprim
  | left h _ => exact isPrim_of_isReference (isReference_of_box h ha)
  | right h _ => exact isPrim_of_isReference (isReference_of_box h hb)
  | solid h => exact isPrim_of_solid h

theorem Regular.accepts_of_components (hs : s.Regular) (habove : JoinsAbove s n) {t u : Ty}
    {o : Option Ty} (hlimit : JoinsWithinLimit s t u d) (ht : t.regular = true)
    (hu : u.regular = true) (hprim : (t.isPrim || u.isPrim) = false)
    (h : s.lubWithin n t u d = some o) :
    Accepts s true ((o.map .array).getD s.object) (.array t) ∧
      Accepts s true ((o.map .array).getD s.object) (.array u) := by
  rw [Bool.or_eq_false_iff] at hprim
  cases o with
  | none => exact ⟨accepts_iff.2 .arrayObject, accepts_iff.2 .arrayObject⟩
  | some r =>
    obtain ⟨hrt, hru⟩ := habove t u d r ht hu hlimit h
    have hr : r.isPrim = false := (hs.outcome ht hu hlimit h).isPrim ht hu hprim.1
    have hleft : (r.isPrim || t.isPrim) = false := by rw [hr, hprim.1]; rfl
    have hright : (r.isPrim || u.isPrim) = false := by rw [hr, hprim.2]; rfl
    exact ⟨accepts_iff.2 (.array hleft hrt), accepts_iff.2 (.array hright hru)⟩

/-! ### All joins -/

theorem Regular.joinsAbove_succ (hs : s.Regular) (habove : JoinsAbove s n) :
    JoinsAbove s (n + 1) := by
  intro a b d c ha hb hlimit h
  have h : s.lubStep (s.lubWithin n) a b d = some (some c) := h
  rcases s.settled_or_apart a b with ⟨r, hr⟩ | ⟨a', b', hap⟩
  · rw [lubStep_settled hr] at h
    cases h
    exact accepts_of_settled hr ha hb
  · have ha' := regular_of_box hap.left ha
    have hb' := regular_of_box hap.right hb
    have hout (a b c : Ty) (ha : a.regular = true) (hb : b.regular = true) :=
      hs.outcome (n := n) (c := c) (d := d) ha hb
    have hsolid := hs.solid_of_apart ha hb hlimit hap hout h
    have hboth : Accepts s true c a' ∧ Accepts s true c b' := by
      rcases forms a' b' with hvar | ⟨t, u, rfl, rfl⟩ | hone | hby
      · rw [lubStep_bounds hap hvar] at h
        have hra := hs.regular_concreteBound Limits.boundChain ha'
        have hrb := hs.regular_concreteBound Limits.boundChain hb'
        obtain ⟨hca, hcb⟩ := habove _ _ _ c hra hrb (hlimit.call (.bounds hap hvar)) h
        -- Chains are followed for 32 steps: two, then 30 more.
        exact ⟨hs.accepts_of_concreteBound hsolid 30 ha' hca,
          hs.accepts_of_concreteBound hsolid 30 hb' hcb⟩
      · rw [lubStep_arrays hap] at h
        cases hprim : t.isPrim || u.isPrim with
        | true =>
          rw [hprim, if_pos rfl] at h
          cases h
          exact ⟨accepts_iff.2 .arrayObject, accepts_iff.2 .arrayObject⟩
        | false =>
          rw [hprim, if_neg Bool.false_ne_true, Option.map_eq_some_iff] at h
          obtain ⟨o, ho, hc⟩ := h
          cases hc
          have hlimit' := hlimit.call (.components hap hprim)
          exact hs.accepts_of_components habove hlimit' ha' hb' hprim ho
      · rw [lubStep_oneArray hap hone] at h
        cases h
        have hobject : s.isObject s.object = true := beq_self_eq_true s.root
        obtain ⟨hsa, hsb⟩ := hap.toCompared.solid_of_noVariable ha hb hone.noVariable
        exact ⟨hs.accepts_of_isObject hobject (primFree_of_solid hsa) ha',
          hs.accepts_of_isObject hobject (primFree_of_solid hsb) hb'⟩
      · rw [lubStep_classes hap hby, Option.map_eq_some_iff] at h
        obtain ⟨r, hr, hc⟩ := h
        cases hc
        exact hs.accepts_of_joinClasses habove hlimit ha hb hap hby hr
    have href := isReference_of_solid hsolid
    exact accepts_of_boxed hap.toBoxed href (isNull_of_solid hsolid) hboth.1 hboth.2

theorem Regular.joinsAbove (hs : s.Regular) (n : Nat) : JoinsAbove s n := by
  induction n with
  | zero => exact fun a b d c _ _ _ h => nomatch h
  | succ n ih => exact hs.joinsAbove_succ ih

/-- The least upper bound is an upper bound: both types are assignable to it. -/
theorem Regular.assignable_lub (hs : s.Regular) (ha : a.regular = true) (hb : b.regular = true)
    (hjoins : JoinsWithinLimit s a b 0) (h : s.lub a b = some c) (hleft : WithinLimit s c a)
    (hright : WithinLimit s c b) : s.assignable c a = true ∧ s.assignable c b = true := by
  obtain ⟨n, hlub⟩ := lubWithin_of_lub h
  obtain ⟨hca, hcb⟩ := hs.joinsAbove n a b 0 c ha hb hjoins hlub
  exact ⟨hleft.assignable hca, hright.assignable hcb⟩

/-- The built-in classes with an interface `Comparable<C>` and a class
`Node<T extends Comparable<T>>`. -/
def nodes : Store :=
  let (s, comparable) := standard.declareClass "Comparable" .interface
  let (s, _) := s.declareParam "C" (.cls comparable)
  let (s, node) := s.declareClass "Node" .concrete
  let (s, t) := s.declareParam "T" (.cls node)
  s.setBounds t [.cls comparable [.param t]]

theorem nodes_regular : nodes.Regular := by
  have horderly : nodes.Orderly :=
    orderly_of_exposed (by decide +kernel) (by decide +kernel) (by decide +kernel)
  have hbounds : ∀ p, ∀ b ∈ nodes.bounds p, b.solid = true ∧ b.regular = true :=
    forall_bounds (by decide +kernel)
  exact ⟨horderly, hbounds, forall_supertypes (by decide +kernel)⟩

theorem exists_pair_of_calls {f g : ClassId} {args brgs : List Ty} {e : Nat}
    (h : Calls s (.cls f args) (.cls g brgs) d x y e) :
    ∃ c ∈ s.commonClasses (.cls f args) (.cls g brgs), ∃ left right,
      Paired s c (.cls f args) (.cls g brgs) left right ∧ ∃ p ∈ left.zip right,
        x = s.upperBound p.1 ∧ y = s.upperBound p.2 := by
  cases h with
  | bounds hap hvar =>
    obtain rfl := eq_of_box_cls hap.left
    obtain rfl := eq_of_box_cls hap.right
    cases hvar
  | components hap _ => cases eq_of_box_cls hap.left
  | arguments hholds _ _ =>
    obtain ⟨hap, _, hcommon, hp, hmem, _, _⟩ := hholds
    obtain rfl := eq_of_box_cls hap.left
    obtain rfl := eq_of_box_cls hap.right
    exact ⟨_, hcommon, _, _, hp, _, hmem, rfl, rfl⟩

theorem nodes_joinsWithinLimit :
    JoinsWithinLimit nodes (.cls 15 [.param 16]) (.cls 15 [.cls 13 [.param 16]]) 0 := by
  intro x y e hvisits x' y' hc
  cases hvisits with
  | here =>
    obtain rfl := eq_of_box_cls hc.left
    obtain rfl := eq_of_box_cls hc.right
    exact ⟨withinLimit_of_beyond (n := 2) (by decide +kernel),
      withinLimit_of_beyond (n := 2) (by decide +kernel)⟩
  | later hcall hrest =>
    -- The bound of `T` is `Comparable<T>`, so the bounds that are joined next are the same.
    obtain ⟨c, hcommon, left, right, hp, p, hmem, rfl, rfl⟩ := exists_pair_of_calls hcall
    have hnode :
        nodes.commonClasses (.cls 15 [.param 16]) (.cls 15 [.cls 13 [.param 16]]) = [15] := by
      decide +kernel
    rw [hnode, List.mem_singleton] at hcommon
    subst hcommon
    have hleft := hp.leftArgs
    have hright := hp.rightArgs
    cases hleft
    cases hright
    cases List.mem_singleton.1 hmem
    cases hrest with
    | here => cases hc.different
    | later hcall _ =>
      obtain ⟨_, _, hap⟩ := hcall.apart
      cases hap.different

theorem nodes_assignable_lub :
    let left := Ty.cls 15 [.param 16]
    let right := Ty.cls 15 [.cls 13 [.param 16]]
    let upper := Ty.cls 15 [Ty.extending (.cls 13 [.param 16])]
    nodes.lub left right = some upper ∧ nodes.assignable upper left = true ∧
      nodes.assignable upper right = true := by
  intro left right upper
  have hleft : WithinLimit nodes upper left := withinLimit_of_beyond (n := 4) (by decide +kernel)
  have hright : WithinLimit nodes upper right := withinLimit_of_beyond (n := 4) (by decide +kernel)
  exact ⟨rfl, nodes_regular.assignable_lub rfl rfl nodes_joinsWithinLimit rfl hleft hright⟩

/-! ### Irregular stores -/

/-- The built-in classes with a class `Box<T>` and what is not regular: parameters bounded by
`? super Number`, by the type of `null` and by an intersection of it, supertypes around what is not
known, and a supertype with a type parameter as a component. -/
def irregular : Store :=
  let (s, box) := standard.declareClass "Box" .concrete
  let (s, _) := s.declareParam "T" (.cls box)
  let (s, bounded) := s.declareClass "Bounded" .concrete
  let (s, x) := s.declareParam "X" (.cls bounded)
  let (s, y) := s.declareParam "Y" (.cls bounded)
  let (s, z) := s.declareParam "Z" (.cls bounded)
  let s := s.setBounds x [Ty.above (.raw 2)]
  let s := (s.setBounds y [.null]).setBounds z [.inter [.null]]
  let (s, vague) := s.declareClass "Vague" .concrete
  let (s, _) := s.declareParam "V" (.cls vague)
  let (s, dim) := s.declareClass "Dim" .concrete
  let (s, _) := s.declareParam "D" (.cls dim)
  let s := s.addSupertype vague ⟨box, [Ty.extending .unknown]⟩
  let s := s.addSupertype dim ⟨box, [Ty.extending .unknown]⟩
  let (s, many) := s.declareClass "Many" .concrete
  let (s, e) := s.declareParam "E" (.cls many)
  s.addSupertype many ⟨box, [.array (.inter [.param e])]⟩

/-- Types whose least upper bound does not accept both of them, each pair for one reason: a bound
`? super Number`, a bound `null`, `null` in a bound, a component `? super Number`, a supertype
around what is not known, and a primitive type put in for a component. -/
def irregularPairs : List (Ty × Ty) :=
  [(.cls 13 [.param 16], .cls 13 [.raw 9]),
    (.cls 13 [.param 17], .cls 13 [Ty.extending .null]),
    (.cls 13 [.param 18], .cls 13 [Ty.extending (.inter [.null])]),
    (.captured 1 .upper (some (.inter [Ty.above (.raw 2)])), .raw 9),
    (.cls 19 [.raw 4], .cls 21 [.raw 4]),
    (.cls 23 [.prim .void], .cls 13 [.array (.raw 4)])]

theorem irregular_orderly : irregular.Orderly :=
  orderly_of_exposed (by decide +kernel) (by decide +kernel) (by decide +kernel)

theorem exists_lub_not_accepting {n : Nat}
    (h : (s.lub a b).any (fun c => !(s.assignableBeyond true n c a &&
      s.assignableBeyond true n c b)) = true) :
    ∃ c, s.lub a b = some c ∧ ¬(Accepts s true c a ∧ Accepts s true c b) := by
  rw [Option.any_eq_true] at h
  obtain ⟨c, hc, hnot⟩ := h
  refine ⟨c, hc, fun ⟨hleft, hright⟩ => ?_⟩
  rw [assignableBeyond_of_accepts n hleft, assignableBeyond_of_accepts n hright] at hnot
  cases hnot

theorem lub_not_upper_bound_of_irregular :
    irregular.Orderly ∧ (∀ p, ∀ b ∈ irregular.bounds p, b.isPrim = false ∧ b.proper = true) ∧
      ∀ p ∈ irregularPairs, (p.1.proper && p.2.proper) = true ∧
        ∃ c, irregular.lub p.1 p.2 = some c ∧
          ¬(Accepts irregular true c p.1 ∧ Accepts irregular true c p.2) := by
  have hproper : ∀ p ∈ irregularPairs, (p.1.proper && p.2.proper) = true := by decide +kernel
  have hrejects : ∀ p ∈ irregularPairs, (irregular.lub p.1 p.2).any
      (fun c => !(irregular.assignableBeyond true 6 c p.1 &&
        irregular.assignableBeyond true 6 c p.2)) = true := by
    decide +kernel
  refine ⟨irregular_orderly, forall_bounds (by decide +kernel), fun p hp => ⟨hproper p hp, ?_⟩⟩
  exact exists_lub_not_accepting (hrejects p hp)

end GenericCalls.Store
