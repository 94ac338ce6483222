import GenericCalls.Proofs.Lub.Arguments
import GenericCalls.Proofs.Store.Uniform

/-! # Chains of assignable types

Where types are used uniformly, a type that accepts a second accepts all that the second does.
Checks of the first may run against the bounds and components of the second, and of lower bounds in
the other direction, so the induction is on the number of nested checks of both together. -/

namespace GenericCalls.Store

open Ty

variable {s : Store} {U : Usage} {boxing : Bool} {R : Ty → Ty → Prop} {t u v b x y z : Ty}
  {l m n : Nat}

/-! ### Containment -/

/-- The type that stands for a type argument from above: the upper bound that a wildcard states, or
the argument itself if it is no wildcard. -/
def ceiling? (t : Ty) : Option Ty :=
  match t.openWildcard? with
  | some w => w.extendsBound?
  | none => some t

/-- The type that stands for a type argument from below: the lower bound that a wildcard states, or
the argument itself if it is no wildcard. -/
def floor? (t : Ty) : Option Ty :=
  match t.openWildcard? with
  | some w => w.superBound?
  | none => some t

/-- The type argument `arg` falls under the type argument `want`, where `R` relates the types that
are known to accept one another. -/
def Contains (s : Store) (R : Ty → Ty → Prop) (want arg : Ty) : Prop :=
  s.demand want arg ≠ .never ∧ ∀ t u, s.demand want arg = .check t u → R t u

theorem under_of_contains (h : Contains s (Accepts s boxing) x y) : Under s boxing x y :=
  ⟨h.1, h.2⟩

theorem contains_extending_iff : Contains s R (extending b) z ↔
    (∃ c, ceiling? z = some c ∧ R b c) ∨ ceiling? z = none ∧ s.isObject b = true := by
  unfold Contains extending demand ceiling?
  cases z.openWildcard? with
  | none => simp
  | some w => cases hw : w.extendsBound? <;> cases hb : s.isObject b <;> simp [hw, hb]

theorem contains_above_iff :
    Contains s R (above b) z ↔ ∃ c, floor? z = some c ∧ R c b := by
  unfold Contains above demand floor?
  cases z.openWildcard? with
  | none => simp
  | some w => cases hw : w.superBound? <;> simp [hw]

theorem contains_iff_of_not_wild (hx : x.isWild = false) :
    Contains s R x z ↔ (x == z) = true := by
  unfold Contains
  rw [demand_of_not_wild hx]
  cases x == z <;> simp

/-! ### Parts that keep to a usage -/

theorem KeepsArg.keeps_bound {w : Wildcard} (h : KeepsArg s U z) (hw : z.openWildcard? = some w)
    (hb : w.bound = some b) : Keeps s U b := by
  cases z with
  | wild k c =>
    cases hw
    cases hb
    exact h.of_wild
  | captured i k c =>
    cases hw
    cases hb
    cases h.of_not_wild rfl with
    | captured _ h => exact h
  | _ => cases hw

theorem KeepsArg.of_not_open (h : KeepsArg s U z) (hz : z.openWildcard? = none) : Keeps s U z := by
  refine h.of_not_wild ?_
  cases z with
  | wild k c => cases hz
  | _ => rfl

theorem keeps_ceiling? (h : KeepsArg s U z) (hb : ceiling? z = some b) : Keeps s U b := by
  unfold ceiling? at hb
  cases hw : z.openWildcard? with
  | none =>
    rw [hw] at hb
    exact Option.some.inj hb ▸ h.of_not_open hw
  | some w =>
    rw [hw] at hb
    obtain ⟨k, c⟩ := w
    cases k with
    | upper => exact h.keeps_bound hw hb
    | lower => cases hb

theorem keeps_floor? (h : KeepsArg s U z) (hb : floor? z = some b) : Keeps s U b := by
  unfold floor? at hb
  cases hw : z.openWildcard? with
  | none =>
    rw [hw] at hb
    exact Option.some.inj hb ▸ h.of_not_open hw
  | some w =>
    rw [hw] at hb
    obtain ⟨k, c⟩ := w
    cases k with
    | upper => cases hb
    | lower => exact h.keeps_bound hw hb

theorem Uniform.keeps_bounds (hs : s.Uniform U) {p : ParamId} (hp : U.params p)
    (hb : b ∈ s.bounds p) : Keeps s U b := by
  have hupper := hs.upper p hp
  cases hbounds : s.bounds p with
  | nil =>
    rw [hbounds] at hb
    cases hb
  | cons b' bs =>
    rw [hbounds] at hb
    cases bs with
    | nil =>
      rw [upperBound_of_single hbounds] at hupper
      exact List.mem_singleton.1 hb ▸ hupper
    | cons b'' bs =>
      rw [upperBound_of_several hbounds] at hupper
      exact hupper.of_inter b hb

theorem Uniform.keeps_wildcardUpper (hs : s.Uniform U) {i : CaptureId} {k : WildcardKind}
    {c : Option Ty} (h : Keeps s U (.captured i k c)) : Keeps s U (s.wildcardUpper ⟨k, c⟩) := by
  cases h with
  | capturedOpen _ => cases k <;> exact hs.object
  | captured _ h =>
    cases k with
    | upper => exact h
    | lower => exact hs.object

theorem Uniform.eq_object (hs : s.Uniform U) (h : Keeps s U t) (ht : s.isObject t = true) :
    t = s.object := by
  obtain ⟨args, rfl⟩ := eq_cls_of_isObject ht
  rw [hs.args_of_root h]
  rfl

theorem Uniform.isObject_of_accepts (hs : s.Uniform U) (ht : Keeps s U t) (hu : Keeps s U u)
    (hobject : s.isObject u = true) (h : Accepts s boxing t u) : s.isObject t = true := by
  rw [hs.eq_object hu hobject] at h
  induction t using Ty.induct with
  | inter ts ih =>
    cases ht with
    | inter values proper hts =>
      have hsolid : ∀ t ∈ ts, t.solid = true := fun t ht => (hts t ht).solid (values t ht)
      have hlifts : ∀ t ∈ ts, Lifts s boxing t :=
        fun t ht => lifts_of_solid hs.rootBare t (hsolid t ht)
      obtain ⟨t, htmem, hnot⟩ := proper
      have hobject := ih t htmem (hts t htmem) (accepts_each_of_inter hlifts hsolid h t htmem)
      rw [hnot] at hobject
      cases hobject
  | prim p => cases ht
  | wildOpen k => cases ht
  | wild k b _ => cases ht
  | null => exact absurd h (not_null_accepts rfl)
  | unknown => cases ht
  | _ => exact isObject_of_accepts_object hs.rootBare rfl h

/-! ### Chains -/

/-- The types that accept one another within so many nested checks. -/
def Within (s : Store) (boxing : Bool) (n : Nat) (t u : Ty) : Prop :=
  s.assignableWithin boxing n t u = true

/-- What the induction on the number of nested checks provides for those that are fewer together. -/
def Transits (s : Store) (U : Usage) (boxing : Bool) (n : Nat) : Prop :=
  ∀ l m t u v, l + m ≤ n → Keeps s U t → Keeps s U u → Keeps s U v →
    Within s boxing l t u → Within s boxing m u v → Accepts s boxing t v

theorem Contains.eq_of_not_wild (h : Contains s R x y) (hwild : x.isWild = false)
    (hx : KeepsArg s U x) (hy : KeepsArg s U y) : x = y :=
  hx.eq_of_beq hy ((contains_iff_of_not_wild hwild).1 h)

theorem Contains.mono {R' : Ty → Ty → Prop} (hR : ∀ t u, R t u → R' t u) (h : Contains s R x y) :
    Contains s R' x y :=
  ⟨h.1, fun t u htu => hR t u (h.2 t u htu)⟩

theorem Uniform.contains_of_isObject (hs : s.Uniform U) (hb : s.isObject b = true)
    (hz : KeepsArg s U z) : Contains s (Accepts s boxing) (extending b) z := by
  rw [contains_extending_iff]
  cases hc : ceiling? z with
  | none => exact .inr ⟨rfl, hb⟩
  | some c =>
    have hkeeps := keeps_ceiling? hz hc
    exact .inl ⟨c, rfl, hs.accepts_of_isObject hb hkeeps.primFree hkeeps.regular⟩

theorem contains_anything (z : Ty) : Contains s R anything z :=
  ⟨(fun h => by cases h), fun _ _ h => by cases h⟩

theorem eq_extending_of_ceiling? (hwild : y.isWild = true) (h : ceiling? y = some b) :
    y = extending b := by
  cases y with
  | wild k c =>
    cases k with
    | upper =>
      cases h
      rfl
    | lower => cases c <;> cases h
  | _ => cases hwild

theorem eq_above_of_floor? (hwild : y.isWild = true) (h : floor? y = some b) : y = above b := by
  cases y with
  | wild k c =>
    cases k with
    | lower =>
      cases h
      rfl
    | upper => cases c <;> cases h
  | _ => cases hwild

theorem Uniform.contains_extending_trans (hs : s.Uniform U) (htrans : Transits s U boxing n)
    (hlm : l + m ≤ n) (hb : Keeps s U b) (hy : KeepsArg s U y) (hz : KeepsArg s U z)
    (hwild : y.isWild = true) (hxy : Contains s (Within s boxing l) (extending b) y)
    (hyz : Contains s (Within s boxing m) y z) :
    Contains s (Accepts s boxing) (extending b) z := by
  rcases contains_extending_iff.1 hxy with ⟨c, hc, hbc⟩ | ⟨_, hobject⟩
  · obtain rfl := eq_extending_of_ceiling? hwild hc
    have hcKeeps := hy.of_wild
    rcases contains_extending_iff.1 hyz with ⟨e, he, hce⟩ | ⟨_, hobject⟩
    · refine contains_extending_iff.2 (.inl ⟨e, he, ?_⟩)
      exact htrans l m b c e hlm hb hcKeeps (keeps_ceiling? hz he) hbc hce
    · have hobject := hs.isObject_of_accepts hb hcKeeps hobject ⟨l, hbc⟩
      exact hs.contains_of_isObject hobject hz
  · exact hs.contains_of_isObject hobject hz

theorem contains_above_trans (htrans : Transits s U boxing n) (hlm : l + m ≤ n) (hb : Keeps s U b)
    (hy : KeepsArg s U y) (hz : KeepsArg s U z) (hwild : y.isWild = true)
    (hxy : Contains s (Within s boxing l) (above b) y)
    (hyz : Contains s (Within s boxing m) y z) : Contains s (Accepts s boxing) (above b) z := by
  obtain ⟨c, hc, hcb⟩ := contains_above_iff.1 hxy
  obtain rfl := eq_above_of_floor? hwild hc
  obtain ⟨e, he, hec⟩ := contains_above_iff.1 hyz
  refine contains_above_iff.2 ⟨e, he, ?_⟩
  -- Lower bounds are checked the other way round, so the numbers of checks change places.
  exact htrans m l e c b (by omega) (keeps_floor? hz he) hy.of_wild hb hec hcb

theorem Uniform.contains_trans (hs : s.Uniform U) (htrans : Transits s U boxing n)
    (hlm : l + m ≤ n) (hx : KeepsArg s U x) (hy : KeepsArg s U y) (hz : KeepsArg s U z)
    (hxy : Contains s (Within s boxing l) x y) (hyz : Contains s (Within s boxing m) y z) :
    Contains s (Accepts s boxing) x z := by
  have haccepts {k : Nat} (t u : Ty) (h : Within s boxing k t u) : Accepts s boxing t u := ⟨k, h⟩
  cases hwild : y.isWild with
  | false =>
    rw [← hyz.eq_of_not_wild hwild hy hz]
    exact hxy.mono haccepts
  | true =>
    cases hx with
    | ty hx =>
      rw [hxy.eq_of_not_wild hx.isWild (.ty hx) hy]
      exact hyz.mono haccepts
    | anything => exact contains_anything z
    | @wild k b hb =>
      cases k with
      | upper => exact hs.contains_extending_trans htrans hlm hb hy hz hwild hxy hyz
      | lower => exact contains_above_trans htrans hlm hb hy hz hwild hxy hyz

/-! ### Classes -/

theorem Uniform.exists_view_of_rule (hs : s.Uniform U) {c d : ClassId} {args brgs : List Ty}
    (ht : Keeps s U (.cls c args)) (hu : Keeps s U (.cls d brgs))
    (h : Rule s boxing R (.cls c args) (.cls d brgs)) :
    c = s.root ∨ Ty.cls c args = .cls d brgs ∨ ∃ lifted, s.ancestorArgs ⟨d, brgs⟩ c = some lifted ∧
      List.Forall₂ (Contains s R) args lifted := by
  have hlength {lifted : List Ty} (hd : s.ancestorArgs ⟨d, brgs⟩ c = some lifted) :
      args.length = lifted.length := by
    have hlifted := hs.keeps_ancestorArgs (c := ⟨d, brgs⟩) hu hd
    exact Option.some.inj (ht.of_cls.1.symm.trans hlifted.of_cls.1)
  cases h with
  | same _ hsame => exact .inr (.inl (ht.eq_of_beq hu hsame))
  | object => exact .inl rfl
  | @raw _ _ _ _ lifted hd hraw =>
    have hnil : args = [] := by
      rcases hraw with hargs | hlifted | hne
      · exact hargs
      · rw [hlifted] at hd
        exact List.length_eq_zero_iff.1 (hlength hd)
      · exact absurd (hlength hd) hne
    subst hnil
    have hnil : lifted = [] := List.length_eq_zero_iff.1 (hlength hd).symm
    rw [hnil] at hd
    exact .inr (.inr ⟨[], hd, .nil⟩)
  | @args _ _ _ _ lifted hd hmet hchecked =>
    refine .inr (.inr ⟨lifted, hd, List.forall₂_iff_zip.2 ⟨hlength hd, fun {x y} hmem => ?_⟩⟩)
    exact ⟨hmet (x, y) hmem, hchecked (x, y) hmem⟩
  | upper _ hv _ => cases hv

theorem forall_zip_of_forall₂ {α β γ : Type} {P : α → β → Prop} {Q : β → γ → Prop}
    {T : α → γ → Prop} {xs : List α} {ys : List β} {zs : List γ} (hP : List.Forall₂ P xs ys)
    (hQ : List.Forall₂ Q ys zs)
    (h : ∀ x ∈ xs, ∀ y ∈ ys, ∀ z ∈ zs, P x y → Q y z → T x z) : ∀ p ∈ xs.zip zs, T p.1 p.2 := by
  induction hP generalizing zs with
  | nil => exact fun p hp => absurd hp List.not_mem_nil
  | @cons x y xs ys hxy _ ih =>
    cases hQ with
    | @cons _ z _ zs hyz hQ =>
      refine List.forall_mem_cons.2 ⟨?_, ih hQ fun x hx y hy z hz => ?_⟩
      · exact h x List.mem_cons_self y List.mem_cons_self z List.mem_cons_self hxy hyz
      · exact h x (List.mem_cons_of_mem _ hx) y (List.mem_cons_of_mem _ hy) z
          (List.mem_cons_of_mem _ hz)

/-- A class type that accepts a second accepts the class types that the second does. -/
theorem Uniform.accepts_cls (hs : s.Uniform U) (htrans : Transits s U boxing n) (hlm : l + m ≤ n)
    {c d e : ClassId} {args brgs crgs : List Ty} (ht : Keeps s U (.cls c args))
    (hu : Keeps s U (.cls d brgs)) (hv : Keeps s U (.cls e crgs))
    (htu : Rule s boxing (Within s boxing l) (.cls c args) (.cls d brgs))
    (huv : Rule s boxing (Within s boxing m) (.cls d brgs) (.cls e crgs)) :
    Accepts s boxing (.cls c args) (.cls e crgs) := by
  have haccepts {k : Nat} (t u : Ty) (h : Within s boxing k t u) : Accepts s boxing t u := ⟨k, h⟩
  rcases hs.exists_view_of_rule ht hu htu with rfl | heq | ⟨lifted, hlifted, hargs⟩
  · exact accepts_iff.2 .object
  · rw [heq]
    exact accepts_iff.2 (huv.mono haccepts)
  rcases hs.exists_view_of_rule hu hv huv with rfl | heq | ⟨seen, hseen, hbrgs⟩
  · -- Nothing but the root class is seen from the root class.
    rcases ancestor_of_ancestorArgs hlifted with hc | hc | hc
    · exact hc ▸ accepts_iff.2 .object
    · exact hc ▸ accepts_iff.2 .object
    · exact absurd hc (not_ancestor_of_supers_eq_nil hs.rootBare)
  · rw [← heq]
    exact accepts_iff.2 (htu.mono haccepts)
  -- Both the middle type and what is seen of the source have views at the target's class, whose
  -- arguments are those of `brgs` and `seen` in the same places, or equal where these do not occur.
  let S (x y : Ty) : Prop := x = y ∨ Contains s (Within s boxing m) x y
  have hseenKeeps := hs.keeps_ancestorArgs (c := ⟨e, crgs⟩) hv hseen
  have halike : Alike s U S ⟨d, brgs⟩ ⟨d, seen⟩ :=
    ⟨rfl, hu, hseenKeeps, hbrgs.imp fun _ _ => .inr⟩
  have hviews := (hs.passing_alike fun _ => .inl rfl).ancestorArgs halike c
  rw [hlifted] at hviews
  obtain ⟨top, htop, hrelated⟩ : ∃ top, s.ancestorArgs ⟨d, seen⟩ c = some top ∧
      List.Forall₂ S lifted top := by
    cases htop : s.ancestorArgs ⟨d, seen⟩ c with
    | none =>
      rw [htop] at hviews
      cases hviews
    | some top =>
      rw [htop] at hviews
      cases hviews with
      | some hviews =>
        refine ⟨top, rfl, ?_⟩
        rcases hviews with ⟨rfl, rfl⟩ | halike
        · exact .nil
        · exact halike.args
  have hfinal := hs.ancestorArgs_trans (c := ⟨e, crgs⟩) hv hseen htop
  have hliftedKeeps := (hs.keeps_ancestorArgs (c := ⟨d, brgs⟩) hu hlifted).of_cls.2
  have htopKeeps := (hs.keeps_ancestorArgs (c := ⟨e, crgs⟩) hv hfinal).of_cls.2
  refine accepts_of_argsAt (.cls e crgs) hfinal
    (forall_zip_of_forall₂ hargs hrelated fun x hx y hy z hz hxy hyz => ?_)
  have hx := ht.of_cls.2 x hx
  rcases hyz with rfl | hyz
  · exact under_of_contains (hxy.mono haccepts)
  · exact under_of_contains (hs.contains_trans htrans hlm hx (hliftedKeeps y hy)
      (htopKeeps z hz) hxy hyz)

/-! ### All types -/

theorem exists_cls_of_rule {d : ClassId} {brgs : List Ty} (hplain : t.isPlain = true)
    (h : Rule s boxing R t (.cls d brgs)) : ∃ c args, t = .cls c args := by
  cases h with
  | same _ hsame =>
    cases t with
    | cls c args => exact ⟨c, args, rfl⟩
    | wild k b => cases hplain
    | _ => cases hsame
  | unbox _ _ _ => cases hplain
  | anything _ => cases hplain
  | bound _ _ => cases hplain
  | each _ _ => cases hplain
  | upper _ hopen _ => cases hopen
  | _ => exact ⟨_, _, rfl⟩

theorem accepts_array (htrans : Transits s U boxing n)
    (hlm : l + m ≤ n) (hplain : t.isPlain = true) (ht : Keeps s U t) (hu : Keeps s U (.array u))
    (hv : Keeps s U (.array v)) (htu : Rule s boxing (Within s boxing l) t (.array u))
    (href : (u.isPrim || v.isPrim) = false) (huv : Within s boxing m u v) :
    Accepts s boxing t (.array v) := by
  rw [Bool.or_eq_false_iff] at href
  cases htu with
  | same _ hsame =>
    rw [ht.eq_of_beq hu hsame]
    exact accepts_iff.2 (.array (by rw [href.1, href.2]; rfl) ⟨m, huv⟩)
  | @array t _ href' htu =>
    rw [Bool.or_eq_false_iff] at href'
    have hparts := htrans l m t u v hlm (ht.of_array_ref href'.1) (hu.of_array_ref href.1)
      (hv.of_array_ref href.2) htu huv
    exact accepts_iff.2 (.array (by rw [href'.1, href.2]; rfl) hparts)
  | arrayObject => exact accepts_iff.2 .arrayObject
  | unbox _ _ _ => cases hplain
  | anything _ => cases hplain
  | bound _ _ => cases hplain
  | each _ _ => cases hplain
  | upper _ hopen _ => cases hopen

theorem Uniform.accepts_of_plain (hs : s.Uniform U) (htrans : Transits s U boxing n)
    (hlm : l + m + 1 ≤ n) (hplain : t.isPlain = true) (ht : Keeps s U t) (hu : Keeps s U u)
    (hv : Keeps s U v) (htu : Rule s boxing (Within s boxing l) t u)
    (huv : Rule s boxing (Within s boxing m) u v) : Accepts s boxing t v := by
  have haccepts {k : Nat} (t u : Ty) (h : Within s boxing k t u) : Accepts s boxing t u := ⟨k, h⟩
  -- The source is taken apart, or the target above it is the root class, or both are of one form.
  have hsource (w : Ty) (hw : Keeps s U w) (huw : Within s boxing m u w) : Accepts s boxing t w :=
    htrans (l + 1) m t u w (by omega) ht hu hw (assignableStep_of_rule htu) huw
  have hobject (h : s.isObject u = true) : s.isObject t = true :=
    hs.isObject_of_accepts ht hu h (accepts_iff.2 (htu.mono haccepts))
  have hclass {d e : ClassId} {brgs crgs : List Ty} (hu : Keeps s U (.cls d brgs))
      (hv : Keeps s U (.cls e crgs)) (htu : Rule s boxing (Within s boxing l) t (.cls d brgs))
      (huv : Rule s boxing (Within s boxing m) (.cls d brgs) (.cls e crgs)) :
      Accepts s boxing t (.cls e crgs) := by
    obtain ⟨c, args, rfl⟩ := exists_cls_of_rule hplain htu
    exact hs.accepts_cls htrans (by omega) ht hu hv htu huv
  cases huv with
  | same _ hsame =>
    rw [← hu.eq_of_beq hv hsame]
    exact accepts_iff.2 (htu.mono haccepts)
  | each _ heach =>
    obtain ⟨w, hw, htw⟩ := htu.exists_component hplain
    exact htrans l (m + 1) t w v (by omega) ht (hu.of_inter w hw) hv htw
      (assignableWithin_mono (heach w hw) (Nat.le_succ m))
  | component _ hw huw =>
    exact accepts_iff.2 (.component hplain hw (hsource _ (hv.of_inter _ hw) huw))
  | upper _ hopen huw =>
    cases v with
    | captured i k c =>
      cases hopen
      exact accepts_iff.2 (.upper hplain rfl (hsource _ (hs.keeps_wildcardUpper hv) huw))
    | wild k c => cases hv
    | _ => cases hopen
  | param _ hb huw =>
    cases hv with
    | param hp => exact accepts_iff.2 (.param hplain hb (hsource _ (hs.keeps_bounds hp hb) huw))
  | unbounded hp h => exact accepts_iff.2 (.unbounded hp (hobject h))
  | array href huv => exact accepts_array htrans (by omega) hplain ht hu hv htu href huv
  | arrayObject =>
    obtain ⟨args, rfl⟩ := eq_cls_of_isObject (hobject (beq_self_eq_true s.root))
    exact accepts_iff.2 .arrayObject
  | object =>
    obtain ⟨args, rfl⟩ := eq_cls_of_isObject (hobject (beq_self_eq_true s.root))
    exact accepts_iff.2 .object
  | raw hd hraw => exact hclass hu hv htu (.raw hd hraw)
  | args hd hmet h => exact hclass hu hv htu (.args hd hmet h)
  | null _ => exact accepts_iff.2 (.null htu.known.1)
  | widen _ => cases hv
  | unbox _ _ _ => cases hu
  | box _ _ _ _ _ => cases hv
  | anything _ => cases hu
  | bound _ _ => cases hu

theorem eq_null_of_rule (hu : Keeps s U u) (h : Rule s boxing R .null u) : u = .null := by
  cases h with
  | same _ hsame => exact (Keeps.null.eq_of_beq hu hsame).symm
  | null _ => rfl
  | box _ hnull _ _ _ => cases hnull
  | component hplain _ _ => cases hplain
  | upper hplain _ _ => cases hplain
  | param hplain _ _ => cases hplain
  | unbounded _ hobject => cases hobject

theorem accepts_of_inter (htrans : Transits s U boxing n)
    (hlm : l + m + 1 ≤ n) {ts : List Ty} (ht : Keeps s U (.inter ts)) (hu : Keeps s U u)
    (hv : Keeps s U v) (htu : Rule s boxing (Within s boxing l) (.inter ts) u)
    (huv : Within s boxing (m + 1) u v) : Accepts s boxing (.inter ts) v := by
  cases htu with
  | same _ hsame =>
    rw [ht.eq_of_beq hu hsame]
    exact ⟨m + 1, huv⟩
  | null _ =>
    rw [eq_null_of_rule hv (rule_of_assignableStep huv)]
    exact accepts_iff.2 (.null rfl)
  | each _ heach =>
    refine accepts_iff.2 (.each hv.isReference fun t htmem => ?_)
    exact htrans l (m + 1) t u v (by omega) (ht.of_inter t htmem) hu hv (heach t htmem) huv
  | box _ _ _ _ _ => cases hu
  | component hplain _ _ => cases hplain
  | upper hplain _ _ => cases hplain
  | param hplain _ _ => cases hplain
  | unbounded _ hobject => cases hobject

theorem Uniform.transits_succ (hs : s.Uniform U) (htrans : Transits s U boxing n) :
    Transits s U boxing (n + 1) := by
  intro l m t u v hlm ht hu hv htu huv
  cases l with
  | zero => cases htu
  | succ l =>
    cases m with
    | zero => cases huv
    | succ m =>
      have htuRule := rule_of_assignableStep htu
      have huvRule := rule_of_assignableStep huv
      cases t with
      | inter ts => exact accepts_of_inter htrans (by omega) ht hu hv htuRule huv
      | array t => exact hs.accepts_of_plain htrans (by omega) rfl ht hu hv htuRule huvRule
      | cls c args => exact hs.accepts_of_plain htrans (by omega) rfl ht hu hv htuRule huvRule
      | param p => exact hs.accepts_of_plain htrans (by omega) rfl ht hu hv htuRule huvRule
      | captured i k c => exact hs.accepts_of_plain htrans (by omega) rfl ht hu hv htuRule huvRule
      | null =>
        obtain rfl := eq_null_of_rule hu htuRule
        rw [eq_null_of_rule hv huvRule]
        exact accepts_self rfl
      | prim p => cases ht
      | wild k b => cases ht
      | unknown => cases ht

theorem Uniform.accepts_trans (hs : s.Uniform U) (ht : Keeps s U t) (hu : Keeps s U u)
    (hv : Keeps s U v) (htu : Accepts s boxing t u) (huv : Accepts s boxing u v) :
    Accepts s boxing t v := by
  have htransits (n : Nat) : Transits s U boxing n := by
    induction n with
    | zero =>
      intro l m t u v hlm _ _ _ htu _
      rw [(Nat.add_eq_zero_iff.1 (Nat.le_zero.1 hlm)).1] at htu
      cases htu
    | succ n ih => exact hs.transits_succ ih
  obtain ⟨l, htu⟩ := htu
  obtain ⟨m, huv⟩ := huv
  exact htransits (l + m) l m t u v (Nat.le_refl _) ht hu hv htu huv

end GenericCalls.Store
