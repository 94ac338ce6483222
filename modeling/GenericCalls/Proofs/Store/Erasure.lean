import GenericCalls.Proofs.Store.Circles

/-! # What erasure leaves

Erasure goes on from a type to the one type whose erasure it needs: the component of an array, the
bound of a wildcard, the first component of an intersection, or the class or array that bounds a type
parameter. It ends in a type without parameters, wildcards, intersections and type arguments, unless
it runs in a circle, which then leads through a parameter that is bounded by an array.

A parameter erases like its first bound where that is a class, an array or a parameter. A first bound
of another form is not followed: the parameter erases to the root class. -/

namespace GenericCalls

/-- Whether a type has no parameter, wildcard, intersection or type argument in it. -/
def Ty.isErased : Ty → Bool
  | .array t => isErased t
  | .cls _ args => args.isEmpty
  | .prim _ | .null | .unknown => true
  | _ => false

/-- Whether erasure follows a bound of this form: a class, an array or a parameter. -/
def Ty.isFollowed : Ty → Bool
  | .cls _ _ | .array _ | .param _ => true
  | _ => false

namespace Store

open Ty Relation

variable {s : Store} {t u : Ty} {n : Nat}

/-! ### Erased types -/

theorem isErased_of_erasureWithin (h : s.erasureWithin n t = some u) : u.isErased = true := by
  fun_induction erasureWithin s n t generalizing u with
  | case1 => cases h
  | case3 n t ih =>
    obtain ⟨v, hv, rfl⟩ := Option.map_eq_some_iff.1 h
    show v.isErased = true
    exact ih hv
  | case5 n p b hb ih => exact ih h
  | case7 n k b ih => exact ih h
  | case8 n i k b ih => exact ih h
  | case10 n t ts ih => exact ih h
  | _ =>
    cases h
    rfl

theorem isErased_erasure (s : Store) (t : Ty) : (s.erasure t).isErased = true := by
  unfold erasure
  cases h : s.erasureWithin (s.erasureBudget t) t with
  | none => rfl
  | some u => exact isErased_of_erasureWithin h

theorem erasureWithin_of_isErased (hu : u.isErased = true) (hn : u.size ≤ n) :
    s.erasureWithin n u = some u := by
  fun_induction erasureWithin s n u with
  | case1 t => exact absurd hn (Nat.not_le.2 t.size_pos)
  | case3 n t ih => rw [ih hu (Nat.le_of_succ_le_succ hn), Option.map_some]
  | case4 n c args => rw [List.isEmpty_iff.1 hu, raw]
  | case2 => rfl
  | case11 => rfl
  | case12 => rfl
  | _ => cases hu

theorem erasure_of_isErased (hu : u.isErased = true) : s.erasure u = u := by
  have hn : u.size ≤ s.erasureBudget u := by
    unfold erasureBudget
    omega
  rw [erasure, erasureWithin_of_isErased hu hn, Option.getD_some]

/-! ### What is erased next -/

/-- The erasure of a type needs that of another. -/
inductive Erases (s : Store) : Ty → Ty → Prop where
  | component {t : Ty} : Erases s (.array t) t
  | bounded {p : ParamId} {b : Ty} (h : s.boundedBy? Limits.boundChain p = some b) :
      Erases s (.param p) b
  | wild {k : WildcardKind} {b : Option Ty} : Erases s (.wild k b) (s.wildcardUpper ⟨k, b⟩)
  | captured {i : CaptureId} {k : WildcardKind} {b : Option Ty} :
      Erases s (.captured i k b) (s.wildcardUpper ⟨k, b⟩)
  | first {t : Ty} {ts : List Ty} : Erases s (.inter (t :: ts)) t

theorem erasureWithin_isSome_iff (s : Store) (n : Nat) (t : Ty) :
    (s.erasureWithin (n + 1) t).isSome = true ↔
      ∀ u, s.Erases t u → (s.erasureWithin n u).isSome = true := by
  have hone {u : Ty} (h : ∀ v, s.Erases t v ↔ v = u) : (s.erasureWithin n u).isSome = true ↔
      ∀ v, s.Erases t v → (s.erasureWithin n v).isSome = true := by
    simp only [h, forall_eq]
  have hnone (hsome : (s.erasureWithin (n + 1) t).isSome = true) (h : ∀ v, ¬s.Erases t v) :
      (s.erasureWithin (n + 1) t).isSome = true ↔
        ∀ v, s.Erases t v → (s.erasureWithin n v).isSome = true :=
    ⟨fun _ v hv => absurd hv (h v), fun _ => hsome⟩
  cases t with
  | array t =>
    rw [erasureWithin, Option.isSome_map]
    exact hone fun v => ⟨fun h => by cases h; rfl, fun h => h ▸ .component⟩
  | param p =>
    cases hb : s.boundedBy? Limits.boundChain p with
    | none =>
      refine hnone (by simp only [erasureWithin, hb, Option.isSome_some]) fun v hv => ?_
      cases hv with
      | bounded h =>
        rw [hb] at h
        cases h
    | some b =>
      simp only [erasureWithin, hb]
      refine hone fun v => ⟨fun h => ?_, fun h => h ▸ .bounded hb⟩
      cases h with
      | bounded h => exact Option.some.inj (h.symm.trans hb)
  | wild k b =>
    rw [erasureWithin]
    exact hone fun v => ⟨fun h => by cases h; rfl, fun h => h ▸ .wild⟩
  | captured i k b =>
    rw [erasureWithin]
    exact hone fun v => ⟨fun h => by cases h; rfl, fun h => h ▸ .captured⟩
  | inter ts =>
    cases ts with
    | nil => exact hnone rfl fun v hv => by cases hv
    | cons t ts =>
      rw [erasureWithin]
      exact hone fun v => ⟨fun h => by cases h; rfl, fun h => h ▸ .first⟩
  | _ => exact hnone rfl fun v hv => by cases hv

theorem leads_of_primaryBound {p : ParamId} {b : Ty} (h : s.primaryBound? p = some b) :
    TransGen s.Leads (.param p) b := by
  have hstep : s.Leads (.param p) (s.upperBound (.param p)) := .bound rfl
  unfold primaryBound? at h
  cases hb : s.bounds p with
  | nil =>
    rw [hb] at h
    cases h
  | cons b' bs =>
    rw [hb] at h
    cases h
    cases bs with
    | nil =>
      rw [upperBound_of_single hb] at hstep
      exact .single hstep
    | cons b' bs =>
      rw [upperBound_of_several hb] at hstep
      exact .tail (.single hstep) .first

theorem leads_of_boundedBy? {p : ParamId} {b : Ty} (h : s.boundedBy? n p = some b) :
    TransGen s.Leads (.param p) b := by
  fun_induction boundedBy? s n p with
  | case1 => cases h
  | case2 n p q hq ih => exact (leads_of_primaryBound hq).trans (ih h)
  | case3 n p c args hb =>
    cases h
    exact leads_of_primaryBound hb
  | case4 n p v hb =>
    cases h
    exact leads_of_primaryBound hb
  | case5 => cases h

theorem form_of_boundedBy? {p : ParamId} {b : Ty} (h : s.boundedBy? n p = some b) :
    (∃ v, b = .array v) ∨ ∃ c args, b = .cls c args := by
  fun_induction boundedBy? s n p with
  | case1 => cases h
  | case2 n p q hq ih => exact ih h
  | case3 n p c args hb =>
    cases h
    exact .inr ⟨c, args, rfl⟩
  | case4 n p v hb =>
    cases h
    exact .inl ⟨v, rfl⟩
  | case5 => cases h

theorem Erases.leads (h : s.Erases t u) : TransGen s.Leads t u := by
  cases h with
  | component => exact .single .component
  | bounded h => exact leads_of_boundedBy? h
  | wild => exact .single (.bound rfl)
  | captured => exact .single (.bound rfl)
  | first => exact .single .first

/-! ### Circles -/

theorem Erases.mem_met {v : Ty} (h : s.Erases u v) (hu : u ∈ s.met t) : v ∈ s.met t :=
  mem_met_of_leads h.leads.to_reflTransGen hu

theorem erasureWithin_of_no_circle (h : ¬RunsInCircle s.Erases t) :
    (s.erasureWithin (s.met t).length t).isSome = true :=
  holds_of_no_circle (P := fun n u => (s.erasureWithin n u).isSome = true)
    (fun _ hu _ hv => hv.mem_met hu) (fun n u _ => (erasureWithin_isSome_iff s n u).2)
    (s.mem_met_self t) h

theorem erasureWithin_of_circle (h : RunsInCircle s.Erases t) (n : Nat) :
    s.erasureWithin n t = none := by
  have hnever := fails_of_circle (P := fun n u => (s.erasureWithin n u).isSome = true) (fun _ => nofun)
    (fun n u v hu hv => (erasureWithin_isSome_iff s n u).1 hu v hv) h n
  exact Option.not_isSome_iff_eq_none.1 hnever

/-- The budget suffices wherever any does. -/
theorem erasureWithin_budget (h : ¬RunsInCircle s.Erases t) :
    s.erasureWithin (s.erasureBudget t) t = some (s.erasure t) := by
  obtain ⟨u, hu⟩ := Option.isSome_iff_exists.1 (erasureWithin_of_no_circle h)
  have hlength : (s.met t).length ≤ s.erasureBudget t := by
    have hmet := s.length_met t
    have hheight := height_le_size t
    unfold erasureBudget Limits.erasureSteps
    omega
  have hbudget := erasureWithin_mono s hu hlength
  rw [erasure, hbudget, Option.getD_some]

/-- Erasure goes on from a parameter to an array, to a class type, or to a smaller type. -/
theorem Erases.forms (h : s.Erases t u) :
    (∃ p v, t = .param p ∧ u = .array v) ∨ (∃ c args, u = .cls c args) ∨ u.size < t.size := by
  have hsmaller (hleads : s.Leads t u) (hne : ∀ p, t ≠ .param p) :
      (∃ c args, u = .cls c args) ∨ u.size < t.size := by
    rcases hleads.forms with ⟨p, rfl⟩ | rfl | hlt
    · exact absurd rfl (hne p)
    · exact .inl ⟨s.root, [], rfl⟩
    · exact .inr hlt
  cases h with
  | component => exact .inr (hsmaller .component nofun)
  | @bounded p b h =>
    rcases form_of_boundedBy? h with ⟨v, rfl⟩ | hcls
    · exact .inl ⟨p, v, rfl, rfl⟩
    · exact .inr (.inl hcls)
  | wild => exact .inr (hsmaller (.bound rfl) nofun)
  | captured => exact .inr (hsmaller (.bound rfl) nofun)
  | first => exact .inr (hsmaller .first nofun)

/-- A circle leads through a parameter that is bounded by an array. -/
theorem exists_array_of_circle (h : TransGen s.Erases t t) :
    ∃ p v, s.boundedBy? Limits.boundChain p = some (.array v) ∧
      ReflTransGen s.Erases t (.param p) ∧ ReflTransGen s.Erases (.array v) t := by
  have hbound {p : ParamId} {v : Ty} (h : s.Erases (.param p) (.array v)) :
      s.boundedBy? Limits.boundChain p = some (.array v) := by
    cases h with
    | bounded h => exact h
  -- As long as no such parameter was passed, types get smaller; and nothing leads on from a class.
  have hpassed {u : Ty} (h : TransGen s.Erases t u) :
      (∃ p v, s.boundedBy? Limits.boundChain p = some (.array v) ∧
        ReflTransGen s.Erases t (.param p) ∧ ReflTransGen s.Erases (.array v) u) ∨
      (∃ c args, u = .cls c args) ∨ u.size < t.size := by
    induction h with
    | single hstep =>
      rcases hstep.forms with ⟨p, v, rfl, rfl⟩ | hform
      · exact .inl ⟨p, v, hbound hstep, .refl, .refl⟩
      · exact .inr hform
    | @tail w u hw hstep ih =>
      rcases ih with ⟨p, v, hp, htp, hvw⟩ | ⟨c, args, rfl⟩ | hsize
      · exact .inl ⟨p, v, hp, htp, hvw.tail hstep⟩
      · cases hstep
      · rcases hstep.forms with ⟨p, v, rfl, rfl⟩ | hcls | hlt
        · exact .inl ⟨p, v, hbound hstep, hw.to_reflTransGen, .refl⟩
        · exact .inr (.inl hcls)
        · exact .inr (.inr (Nat.lt_trans hlt hsize))
  rcases hpassed h with hfound | ⟨c, args, rfl⟩ | hlt
  · exact hfound
  · obtain ⟨u, hstep, _⟩ := TransGen.head'_iff.1 h
    cases hstep
  · exact absurd hlt (Nat.lt_irrefl _)

/-- The erasure of a type is finite, whatever the declared bounds, unless it runs in a circle, and
circles lead through parameters that are bounded by arrays. What it leaves is erased, and erasing it
again changes nothing. -/
theorem erasure_settles (s : Store) (t : Ty) :
    ((∃ n, ∀ m, n ≤ m → s.erasureWithin m t = some (s.erasure t)) ↔ ¬RunsInCircle s.Erases t) ∧
      (∀ u, TransGen s.Erases u u → ∃ p v, s.boundedBy? Limits.boundChain p = some (.array v) ∧
        ReflTransGen s.Erases u (.param p) ∧ ReflTransGen s.Erases (.array v) u) ∧
      (s.erasure t).isErased = true ∧ s.erasure (s.erasure t) = s.erasure t := by
  refine ⟨⟨?_, fun h => ?_⟩, fun _ => exists_array_of_circle, s.isErased_erasure t,
    erasure_of_isErased (s.isErased_erasure t)⟩
  · rintro ⟨n, hn⟩ hcircle
    have hsome := hn n (Nat.le_refl n)
    rw [erasureWithin_of_circle hcircle] at hsome
    cases hsome
  · exact ⟨_, fun m hm => erasureWithin_mono s (erasureWithin_budget h) hm⟩

/-- The root class and a method with a type parameter `T` that is bounded by `T[]`. -/
def ownArray : Store :=
  let (s, m) := bare.declareMethod "m" .method none
  let (s, t) := s.declareParam "T" (.method m)
  s.setBounds t [.array (.param t)]

theorem ownArray_circle : TransGen ownArray.Erases (.param 3) (.param 3) := by
  have hbound : ownArray.Erases (.param 3) (.array (.param 3)) := .bounded rfl
  exact .tail (.single hbound) .component

theorem erasure_settles_ownArray :
    TransGen ownArray.Erases (.param 3) (.param 3) ∧
      ∃ p v, ownArray.boundedBy? Limits.boundChain p = some (.array v) ∧
        ReflTransGen ownArray.Erases (.param 3) (.param p) ∧
        ReflTransGen ownArray.Erases (.array v) (.param 3) :=
  ⟨ownArray_circle, (erasure_settles ownArray (.param 3)).2.1 (.param 3) ownArray_circle⟩

theorem not_erasureWithin_ownArray :
    ¬∃ n, (ownArray.erasureWithin n (.param 3)).isSome = true := by
  rintro ⟨n, hn⟩
  rw [erasureWithin_of_circle ⟨_, .refl, ownArray_circle⟩] at hn
  cases hn

/-! ### Type parameters -/

/-- Each of `n` parameters, from `p` to the one before `q`, has the next one as its first bound. -/
inductive ParamChain (s : Store) : Nat → ParamId → ParamId → Prop where
  | nil {p : ParamId} : ParamChain s 0 p p
  | cons {n : Nat} {p q r : ParamId} (h : s.primaryBound? p = some (.param q))
      (rest : ParamChain s n q r) : ParamChain s (n + 1) p r

theorem no_circle_of_acyclic (hacyclic : ∀ p, ¬TransGen s.BoundBy p p) (t : Ty) :
    ¬RunsInCircle s.Erases t := by
  rintro ⟨u, _, hcircle⟩
  have hleads : s.Erases ≤ TransGen s.Leads := fun _ _ h => h.leads
  exact not_leads_of_acyclic hacyclic (TransGen.closed hleads u u hcircle)

theorem erasure_of_within (h : ¬RunsInCircle s.Erases t) (hu : s.erasureWithin n t = some u) :
    s.erasure t = u := by
  have hbudget := erasureWithin_budget h
  rcases Nat.le_total n (s.erasureBudget t) with hle | hle
  · rw [erasureWithin_mono s hu hle] at hbudget
    exact (Option.some.inj hbudget).symm
  · rw [erasureWithin_mono s hbudget hle] at hu
    exact Option.some.inj hu

/-- A type erases like the type that its erasure goes on to, the component of an array aside. -/
theorem erasure_eq_of_erases (hno : ¬RunsInCircle s.Erases t) (h : s.Erases t u)
    (harray : t ≠ .array u) : s.erasure t = s.erasure u := by
  have hnext := erasureWithin_budget (not_runsInCircle_of_step hno h)
  refine erasure_of_within (n := s.erasureBudget u + 1) hno ?_
  cases h with
  | component => exact absurd rfl harray
  | bounded hb => simp only [erasureWithin, hb, hnext]
  | wild | captured | first => exact hnext

theorem erasure_array (hno : ¬RunsInCircle s.Erases (.array t)) :
    s.erasure (.array t) = .array (s.erasure t) := by
  have hnext := erasureWithin_budget (not_runsInCircle_of_step hno .component)
  refine erasure_of_within (n := s.erasureBudget t + 1) hno ?_
  rw [erasureWithin, hnext, Option.map_some]

theorem paramErasure_of_bounded {p : ParamId} {b : Ty} (h : ¬RunsInCircle s.Erases (.param p))
    (hb : s.boundedBy? Limits.boundChain p = some b) : s.paramErasure p = s.erasure b :=
  erasure_eq_of_erases h (.bounded hb) nofun

theorem paramErasure_of_unbounded {p : ParamId} (h : s.boundedBy? Limits.boundChain p = none) :
    s.paramErasure p = s.object := by
  simp only [paramErasure, erasure, erasureBudget, erasureWithin, h, Option.getD_some]

theorem boundedBy?_succ {p : ParamId} {b : Ty} (h : s.boundedBy? n p = some b) :
    s.boundedBy? (n + 1) p = some b := by
  fun_induction boundedBy? s n p with
  | case1 => cases h
  | case2 n p q hq ih =>
    rw [boundedBy?]
    simp only [hq]
    exact ih h
  | case3 n p c args hb =>
    rw [boundedBy?]
    simp only [hb]
    exact h
  | case4 n p v hb =>
    rw [boundedBy?]
    simp only [hb]
    exact h
  | case5 => cases h

theorem first_of_boundedBy? {p : ParamId} {b : Ty} (h : s.boundedBy? (n + 1) p = some b) :
    ∃ v ∈ s.bounds p, v = b ∨ ∃ q, v = .param q ∧ s.boundedBy? n q = some b := by
  have hfirst {v : Ty} (hv : s.primaryBound? p = some v) : v ∈ s.bounds p :=
    List.mem_of_mem_head? hv
  rw [boundedBy?] at h
  split at h
  · rename_i q hq
    exact ⟨_, hfirst hq, .inr ⟨q, rfl, h⟩⟩
  · rename_i c args hb
    exact ⟨_, hfirst hb, .inl (Option.some.inj h)⟩
  · rename_i v hb
    exact ⟨_, hfirst hb, .inl (Option.some.inj h)⟩
  · cases h

theorem erasure_eq_first {p : ParamId} {b : Ty} (hacyclic : ∀ p, ¬TransGen s.BoundBy p p)
    (hb : s.boundedBy? Limits.boundChain p = some b) :
    ∃ v ∈ s.bounds p, s.erasure (.param p) = s.erasure v := by
  have hno := no_circle_of_acyclic hacyclic
  have hself := erasure_eq_of_erases (hno _) (.bounded hb) nofun
  obtain ⟨v, hv, hfirst⟩ := first_of_boundedBy? (n := 31) hb
  refine ⟨v, hv, ?_⟩
  rcases hfirst with rfl | ⟨q, rfl, hq⟩
  · exact hself
  · -- The search from the next parameter finds the same, one step earlier.
    exact hself.trans (erasure_eq_of_erases (hno _) (.bounded (boundedBy?_succ hq)) nofun).symm

/-- Where chains of parameters are shorter, a longer search finds nothing more. -/
theorem boundedBy?_of_chain {q : ParamId} (h : ∀ m r, s.ParamChain m q r → m ≤ n) :
    s.boundedBy? (n + 1) q = s.boundedBy? (n + 2) q := by
  induction n generalizing q with
  | zero =>
    rw [boundedBy?, boundedBy?]
    split
    · rename_i r hr
      exact absurd (h 1 r (.cons hr .nil)) (Nat.not_succ_le_zero 0)
    · rfl
    · rfl
    · rfl
  | succ n ih =>
    rw [boundedBy?, boundedBy?.eq_def s (n + 1 + 2)]
    dsimp only
    split
    · rename_i r hr
      exact ih fun m r' hm => Nat.le_of_succ_le_succ (h (m + 1) r' (.cons hr hm))
    · rfl
    · rfl
    · rfl

/-- Where no parameter is bounded by itself and no chain of parameters is too long, a parameter
without bounds erases to the root class, and one with bounds like the first of them if this is a
class, an array or a parameter. If it is anything else, the parameter erases to the root class. -/
theorem paramErasure_eq (hacyclic : ∀ p, ¬TransGen s.BoundBy p p)
    (hchain : ∀ n p q, s.ParamChain n p q → n < Limits.boundChain) (p : ParamId) :
    (∃ n, ∀ m, n ≤ m → s.erasureWithin m (.param p) = some (s.paramErasure p)) ∧
      (s.primaryBound? p = none → s.paramErasure p = s.object) ∧
      ∀ b, s.primaryBound? p = some b →
        s.paramErasure p = if b.isFollowed then s.erasure b else s.object := by
  have hno := no_circle_of_acyclic hacyclic
  have hunbounded (h : s.boundedBy? Limits.boundChain p = none) := paramErasure_of_unbounded h
  refine ⟨⟨_, fun m hm => erasureWithin_mono s (erasureWithin_budget (hno (.param p))) hm⟩,
    fun hnone => hunbounded ?_, fun b hb => ?_⟩
  · simp only [Limits.boundChain, boundedBy?, hnone]
  · cases b with
    | cls c args =>
      rw [isFollowed, if_pos rfl]
      refine paramErasure_of_bounded (hno _) ?_
      simp only [Limits.boundChain, boundedBy?, hb]
    | array t =>
      rw [isFollowed, if_pos rfl]
      refine paramErasure_of_bounded (hno _) ?_
      simp only [Limits.boundChain, boundedBy?, hb]
    | param q =>
      rw [isFollowed, if_pos rfl]
      -- The search from `q` starts one parameter further on.
      have hsame : s.boundedBy? Limits.boundChain p = s.boundedBy? Limits.boundChain q := by
        have hshort : ∀ m r, s.ParamChain m q r → m ≤ 30 := fun m r hm =>
          Nat.le_of_lt_succ (Nat.lt_of_succ_lt_succ (hchain (m + 1) p r (.cons hb hm)))
        rw [show Limits.boundChain = 30 + 2 from rfl, ← boundedBy?_of_chain hshort, boundedBy?]
        simp only [hb]
      cases hq : s.boundedBy? Limits.boundChain q with
      | none => exact (hunbounded (hsame.trans hq)).trans (paramErasure_of_unbounded hq).symm
      | some b =>
        exact (paramErasure_of_bounded (hno _) (hsame.trans hq)).trans
          (paramErasure_of_bounded (hno _) hq).symm
    | _ =>
      refine hunbounded ?_
      simp only [Limits.boundChain, boundedBy?, hb]

/-! ### Bounds by earlier parameters -/

/-- The parameters exposed in bounds are declared before those that they bound. -/
def BoundByEarlier (s : Store) : Prop := ∀ p, ∀ b ∈ s.bounds p, ∀ q ∈ b.exposed, q < p

theorem BoundByEarlier.acyclic (h : s.BoundByEarlier) (p : ParamId) : ¬TransGen s.BoundBy p p := by
  have hlt {p q : ParamId} (hpq : TransGen s.BoundBy p q) : q < p := by
    induction hpq with
    | single hstep =>
      obtain ⟨b, hb, hq⟩ := hstep
      exact h _ b hb _ hq
    | tail _ hstep ih =>
      obtain ⟨b, hb, hq⟩ := hstep
      exact Nat.lt_trans (h _ b hb _ hq) ih
  exact fun hcircle => Nat.lt_irrefl p (hlt hcircle)

theorem BoundByEarlier.chain_le (h : s.BoundByEarlier) {p q : ParamId} (hchain : s.ParamChain n p q) :
    n ≤ p := by
  induction hchain with
  | nil => exact Nat.zero_le _
  | cons hp _ ih =>
    exact Nat.lt_of_le_of_lt ih (h _ _ (List.mem_of_mem_head? hp) _ List.mem_cons_self)

theorem BoundByEarlier.chain_le_size (h : s.BoundByEarlier) {p q : ParamId}
    (hchain : s.ParamChain n p q) : n ≤ s.size := by
  cases hchain with
  | nil => exact Nat.zero_le _
  | @cons n p r q hp hrest =>
    refine Nat.le_trans (h.chain_le (.cons hp hrest)) (Nat.not_lt.1 fun hlt => ?_)
    rw [primaryBound?, bounds_eq_nil hlt] at hp
    cases hp

/-- The built-in classes, an interface `Comparable<C>`, and a method with parameters
`T extends Number & Comparable<T>`, this bound written as one, `U extends Number[]` and
`V extends U`. -/
def severalForms : Store :=
  let (s, comparable) := standard.declareClass "Comparable" .interface
  let (s, _) := s.declareParam "C" (.cls comparable)
  let (s, m) := s.declareMethod "m" .method none
  let (s, t) := s.declareParam "T" (.method m)
  let (s, u) := s.declareParam "U" (.method m)
  let (s, v) := s.declareParam "V" (.method m)
  let s := s.setBounds t [.inter [.raw 2, .cls comparable [.param t]]]
  let s := s.setBounds u [.array (.raw 2)]
  s.setBounds v [.param u]

theorem severalForms_earlier : severalForms.BoundByEarlier := by
  intro p b hb
  rcases Nat.lt_or_ge severalForms.size p with hlt | hle
  · rw [bounds_eq_nil hlt] at hb
    cases hb
  · have hall : ∀ p < severalForms.size + 1, ∀ b ∈ severalForms.bounds p, ∀ q ∈ b.exposed, q < p := by
      decide +kernel
    exact hall p (Nat.lt_succ_of_le hle) b hb

theorem severalForms_chain (n : Nat) (p q : ParamId) (h : severalForms.ParamChain n p q) :
    n < Limits.boundChain :=
  Nat.lt_of_le_of_lt (severalForms_earlier.chain_le_size h) (by decide +kernel)

theorem paramErasure_severalForms :
    (∀ p, ¬TransGen severalForms.BoundBy p p) ∧
      (∀ n p q, severalForms.ParamChain n p q → n < Limits.boundChain) ∧
      severalForms.paramErasure 18 = .array (.raw 2) := by
  have hacyclic := severalForms_earlier.acyclic
  refine ⟨hacyclic, severalForms_chain, ?_⟩
  rw [(paramErasure_eq hacyclic severalForms_chain 18).2.2 (.param 17) rfl, isFollowed, if_pos rfl]
  exact erasure_of_within (n := 3) (no_circle_of_acyclic hacyclic _) rfl

/-- The erasure of `Number & Comparable<T>` is `Number`, but what it bounds erases to the root
class. -/
theorem paramErasure_intersection :
    (∀ p, ¬TransGen severalForms.BoundBy p p) ∧
      (∀ n p q, severalForms.ParamChain n p q → n < Limits.boundChain) ∧
      severalForms.primaryBound? 16 = some (.inter [.raw 2, .cls 13 [.param 16]]) ∧
      severalForms.erasure (.inter [.raw 2, .cls 13 [.param 16]]) = .raw 2 ∧
      severalForms.paramErasure 16 = .raw 1 := by
  have hno := no_circle_of_acyclic severalForms_earlier.acyclic
  exact ⟨severalForms_earlier.acyclic, severalForms_chain, rfl,
    erasure_of_within (n := 2) (hno _) rfl, paramErasure_of_unbounded rfl⟩

end Store

end GenericCalls
