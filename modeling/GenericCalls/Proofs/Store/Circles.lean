import GenericCalls.Proofs.Store.Weight
import Mathlib.Algebra.Order.BigOperators.Group.List
import Mathlib.Data.List.Nodup

/-! # Recursions that end but for circles

An algorithm that follows components and bounds of a type meets the types on its spine and those that
are declared, and these are finitely many. A recursion over finitely many places ends in as many
steps, unless it runs in a circle; and in a circle it never ends. -/

namespace GenericCalls

open Relation

/-! ### Circles -/

section Circles

variable {α : Type} {R : α → α → Prop} {P : Nat → α → Prop} {x : α}

/-- Steps of `R` lead from `x` into a circle. -/
def RunsInCircle (R : α → α → Prop) (x : α) : Prop :=
  ∃ y, ReflTransGen R x y ∧ TransGen R y y

theorem not_runsInCircle_of_step {y : α} (h : ¬RunsInCircle R x) (hxy : R x y) :
    ¬RunsInCircle R y :=
  fun ⟨z, hyz, hz⟩ => h ⟨z, .head hxy hyz, hz⟩

theorem RunsInCircle.lift {β : Type} {S : β → β → Prop} {f : α → β}
    (hf : ∀ x y, R x y → S (f x) (f y)) (h : RunsInCircle R x) : RunsInCircle S (f x) := by
  obtain ⟨y, hxy, hy⟩ := h
  exact ⟨f y, ReflTransGen.lift f hf x y hxy, TransGen.lift f hf y y hy⟩

/-- What follows at each place from the places one step on holds within as many steps as there are
places, unless the steps run in a circle. -/
theorem holds_of_no_circle {xs : List α} (hclosed : ∀ x ∈ xs, ∀ y, R x y → y ∈ xs)
    (hstep : ∀ n, ∀ x ∈ xs, (∀ y, R x y → P n y) → P (n + 1) x) (hx : x ∈ xs)
    (hno : ¬RunsInCircle R x) : P xs.length x := by
  -- The induction is on the places not yet passed; those passed are distinct and lead to `x`.
  suffices h : ∀ (n : Nat) (seen : List α) (x : α), seen.Nodup → seen ⊆ xs →
      (∀ y ∈ seen, TransGen R y x) → seen.length + n = xs.length → x ∈ xs → ¬RunsInCircle R x →
      P n x from
    h xs.length [] x List.nodup_nil (List.nil_subset xs) nofun (Nat.zero_add _) hx hno
  intro n
  induction n with
  | zero =>
    intro seen x hnodup hsub hlead hlength hx hno
    have hnew : x ∉ seen := fun hmem => hno ⟨x, .refl, hlead x hmem⟩
    have hle := (List.nodup_cons.2 ⟨hnew, hnodup⟩).length_le_of_subset
      (List.cons_subset.2 ⟨hx, hsub⟩)
    rw [List.length_cons] at hle
    omega
  | succ n ih =>
    intro seen x hnodup hsub hlead hlength hx hno
    have hnew : x ∉ seen := fun hmem => hno ⟨x, .refl, hlead x hmem⟩
    refine hstep n x hx fun y hxy => ih (x :: seen) y (List.nodup_cons.2 ⟨hnew, hnodup⟩)
      (List.cons_subset.2 ⟨hx, hsub⟩) ?_ ?_ (hclosed x hx y hxy)
      (not_runsInCircle_of_step hno hxy)
    · intro z hz
      rcases List.mem_cons.1 hz with rfl | hz
      · exact .single hxy
      · exact (hlead z hz).tail hxy
    · rw [List.length_cons]
      omega

/-- What needs one step more than at the places one step on holds nowhere that leads into a
circle. -/
theorem fails_of_circle (hzero : ∀ x, ¬P 0 x) (hback : ∀ n x y, P (n + 1) x → R x y → P n y)
    (h : RunsInCircle R x) (n : Nat) : ¬P n x := by
  have hone {n : Nat} {x y : α} (hP : P n x) (hxy : R x y) : ∃ m < n, P m y := by
    cases n with
    | zero => exact absurd hP (hzero x)
    | succ n => exact ⟨n, Nat.lt_succ_self n, hback n x y hP hxy⟩
  have hmany {n : Nat} {x y : α} (hP : P n x) (hxy : TransGen R x y) : ∃ m < n, P m y := by
    induction hxy with
    | single hstep => exact hone hP hstep
    | tail _ hstep ih =>
      obtain ⟨m, hm, hmP⟩ := ih
      obtain ⟨k, hk, hkP⟩ := hone hmP hstep
      exact ⟨k, Nat.lt_trans hk hm, hkP⟩
  obtain ⟨y, hxy, hcircle⟩ := h
  have hnever (m : Nat) : ¬P m y := by
    induction m using Nat.strongRecOn with
    | ind m ih =>
      intro hP
      obtain ⟨k, hk, hkP⟩ := hmany hP hcircle
      exact ih k hk hkP
  intro hP
  rcases reflTransGen_iff_eq_or_transGen.1 hxy with rfl | hxy
  · exact hnever n hP
  · obtain ⟨m, -, hm⟩ := hmany hP hxy
    exact hnever m hm

end Circles

namespace Store

open Ty

variable {s : Store} {t u : Ty}

/-! ### Types that are met -/

/-- The intersection of the bounds of a type parameter, and the types on their spines. -/
def boundTypes : Decl → List Ty
  | .param d => .inter d.bounds :: d.bounds.flatMap spine
  | _ => []

/-- The types to which bounds lead: the root class, wrappers, and what type parameters are declared
with. -/
def declaredTypes (s : Store) : List Ty :=
  s.object :: (Primitive.all.filterMap s.boxed? ++ s.decls.toList.flatMap boundTypes)

/-- The types that are met on the way through components and bounds of a type. -/
def met (s : Store) (t : Ty) : List Ty := t.spine ++ s.declaredTypes

theorem mem_met_self (s : Store) (t : Ty) : t ∈ s.met t :=
  List.mem_append_left _ (mem_spine_self t)

theorem mem_met_of_declared (h : u ∈ s.declaredTypes) : u ∈ s.met t := List.mem_append_right _ h

theorem object_mem_met (s : Store) (t : Ty) : s.object ∈ s.met t :=
  mem_met_of_declared List.mem_cons_self

theorem mem_met_of_boxed {p : Primitive} (h : s.boxed? p = some u) : u ∈ s.met t := by
  have hp : p ∈ Primitive.all := by cases p <;> decide
  exact mem_met_of_declared <|
    List.mem_cons_of_mem _ <| List.mem_append_left _ <| List.mem_filterMap.2 ⟨p, hp, h⟩

theorem mem_met_of_boundTypes {d : Decl} {i : Nat} (hd : s.decl? i = some d)
    (h : u ∈ boundTypes d) : u ∈ s.met t :=
  mem_met_of_declared <| List.mem_cons_of_mem _ <| List.mem_append_right _ <|
    List.mem_flatMap.2 ⟨d, mem_decls hd, h⟩

theorem spine_bound_subset_met {p : ParamId} {b : Ty} (hb : b ∈ s.bounds p) :
    b.spine ⊆ s.met t := by
  obtain ⟨d, hbounds, hd⟩ := exists_decl_of_bounds (List.ne_nil_of_mem hb)
  intro u hu
  refine mem_met_of_boundTypes hd (List.mem_cons_of_mem _ (List.mem_flatMap.2 ⟨b, ?_, hu⟩))
  rw [hbounds]
  exact hb

theorem bound_mem_met {p : ParamId} {b : Ty} (hb : b ∈ s.bounds p) : b ∈ s.met t :=
  spine_bound_subset_met hb (mem_spine_self b)

theorem spine_subset_met (h : u ∈ s.met t) : u.spine ⊆ s.met t := by
  rcases List.mem_append.1 h with h | h
  · exact List.subset_append_of_subset_left _ (spine_subset h)
  · refine List.subset_append_of_subset_right _ ?_
    rcases List.mem_cons.1 h with rfl | h
    · exact List.cons_subset.2 ⟨List.mem_cons_self, List.nil_subset _⟩
    · refine List.subset_cons_of_subset _ ?_
      rcases List.mem_append.1 h with h | h
      · refine List.subset_append_of_subset_left _ ?_
        obtain ⟨p, _, hp⟩ := List.mem_filterMap.1 h
        obtain ⟨c, _, rfl⟩ := Option.map_eq_some_iff.1 hp
        exact List.cons_subset.2 ⟨h, List.nil_subset _⟩
      · refine List.subset_append_of_subset_right _ ?_
        obtain ⟨d, hd, hu⟩ := List.mem_flatMap.1 h
        suffices hsub : u.spine ⊆ boundTypes d from fun v hv => List.mem_flatMap.2 ⟨d, hd, hsub hv⟩
        cases d with
        | cls d => cases hu
        | method d => cases hu
        | param d =>
          rcases List.mem_cons.1 hu with rfl | hu
          · cases hb : d.bounds with
            | nil => exact List.cons_subset.2 ⟨hb ▸ List.mem_cons_self, List.nil_subset _⟩
            | cons b bs =>
              refine List.cons_subset.2 ⟨hb ▸ List.mem_cons_self, fun v hv => ?_⟩
              refine List.mem_cons_of_mem _ (List.mem_flatMap.2 ⟨b, ?_, hv⟩)
              rw [hb]
              exact List.mem_cons_self
          · obtain ⟨b, hb, hub⟩ := List.mem_flatMap.1 hu
            exact fun v hv =>
              List.mem_cons_of_mem _ (List.mem_flatMap.2 ⟨b, hb, spine_subset hub hv⟩)

theorem wildcardUpper_mem_met {k : WildcardKind} {b : Option Ty}
    (h : ∀ u, b = some u → u ∈ s.met t) : s.wildcardUpper ⟨k, b⟩ ∈ s.met t := by
  cases k with
  | upper =>
    cases b with
    | none => exact s.object_mem_met t
    | some b => exact h b rfl
  | lower => exact s.object_mem_met t

theorem wildcardUpper_mem_met_of_wild {k : WildcardKind} {b : Option Ty}
    (h : .wild k b ∈ s.met t) : s.wildcardUpper ⟨k, b⟩ ∈ s.met t := by
  refine wildcardUpper_mem_met fun u hu => spine_subset_met h ?_
  rw [hu]
  exact List.mem_cons_of_mem _ (mem_spine_self u)

theorem wildcardUpper_mem_met_of_captured {i : CaptureId} {k : WildcardKind} {b : Option Ty}
    (h : .captured i k b ∈ s.met t) : s.wildcardUpper ⟨k, b⟩ ∈ s.met t := by
  refine wildcardUpper_mem_met fun u hu => spine_subset_met h ?_
  rw [hu]
  exact List.mem_cons_of_mem _ (mem_spine_self u)

theorem upperBound_mem_met (h : u ∈ s.met t) : s.upperBound u ∈ s.met t := by
  cases u with
  | param p =>
    cases hb : s.bounds p with
    | nil =>
      rw [upperBound_of_nil hb]
      exact s.object_mem_met t
    | cons b bs =>
      cases bs with
      | nil =>
        rw [upperBound_of_single hb]
        exact bound_mem_met (hb ▸ List.mem_cons_self)
      | cons b' bs =>
        obtain ⟨d, hbounds, hd⟩ := exists_decl_of_bounds (hb ▸ List.cons_ne_nil b (b' :: bs))
        rw [upperBound_of_several hb, ← hb, ← hbounds]
        exact mem_met_of_boundTypes hd List.mem_cons_self
  | wild k b => exact wildcardUpper_mem_met_of_wild h
  | captured i k b => exact wildcardUpper_mem_met_of_captured h
  | _ => exact h

theorem component_mem_met (h : .array u ∈ s.met t) : u ∈ s.met t :=
  spine_subset_met h (List.mem_cons_of_mem _ (mem_spine_self u))

theorem box?_mem_met {v : Ty} (h : u ∈ s.met t) (hv : s.box? u = some v) : v ∈ s.met t := by
  unfold box? at hv
  split at hv
  · exact mem_met_of_boxed hv
  · exact Option.some.inj hv ▸ h

/-! ### How many types are met -/

theorem length_flatMap_spine (ts : List Ty) : (ts.flatMap spine).length ≤ sizeAll ts := by
  induction ts with
  | nil => exact Nat.le_refl 0
  | cons t ts ih =>
    rw [List.flatMap_cons, List.length_append, sizeAll]
    exact Nat.add_le_add (Nat.le_trans (length_spine_le_height t) (height_le_size t)) ih

theorem length_boundTypes (d : Decl) : (boundTypes d).length ≤ declWeight d := by
  cases d with
  | param d => exact Nat.succ_le_succ (length_flatMap_spine d.bounds)
  | _ => exact Nat.zero_le _

/-- Besides the declared bounds and the spine there are the root class and the wrappers of nine
primitive types. -/
theorem length_met (s : Store) (t : Ty) : (s.met t).length ≤ height t + s.weight + 10 := by
  have hspine := length_spine_le_height t
  have hboxed : (Primitive.all.filterMap s.boxed?).length ≤ 9 := List.length_filterMap_le _ _
  have hbounds : (s.decls.toList.flatMap boundTypes).length ≤ s.weight := by
    rw [List.length_flatMap, weight_eq_sum]
    exact List.sum_le_sum fun d _ => length_boundTypes d
  rw [met, declaredTypes, List.length_append, List.length_cons, List.length_append]
  omega

theorem height_of_mem_spine (h : u ∈ t.spine) : height u ≤ height t := by
  fun_induction spine t with
  | case5 t => exact Nat.le_of_eq (congrArg height (List.mem_singleton.1 h))
  | case4 t ts ih =>
    rcases List.mem_cons.1 h with rfl | h
    · exact Nat.le_refl _
    · have hhead := height_le_heightAll (List.mem_cons_self (a := t) (l := ts))
      exact Nat.le_succ_of_le (Nat.le_trans (ih h) hhead)
  | _ =>
    rename_i ih
    rcases List.mem_cons.1 h with rfl | h
    · exact Nat.le_refl _
    · exact Nat.le_succ_of_le (ih h)

theorem height_of_mem_met (h : u ∈ s.met t) : height u ≤ max (height t) s.weight := by
  have hone {v : Ty} (hv : height v = 1) : height v ≤ max (height t) s.weight := by
    have hpos := height_pos t
    omega
  rcases List.mem_append.1 h with h | h
  · exact Nat.le_trans (height_of_mem_spine h) (Nat.le_max_left _ _)
  · rcases List.mem_cons.1 h with rfl | h
    · exact hone rfl
    · rcases List.mem_append.1 h with h | h
      · obtain ⟨p, _, hp⟩ := List.mem_filterMap.1 h
        obtain ⟨c, _, rfl⟩ := Option.map_eq_some_iff.1 hp
        exact hone rfl
      · obtain ⟨d, hd, hu⟩ := List.mem_flatMap.1 h
        have hweight : declWeight d ≤ s.weight := declWeight_le_weight hd
        refine Nat.le_trans (Nat.le_trans ?_ hweight) (Nat.le_max_right _ _)
        cases d with
        | cls d => cases hu
        | method d => cases hu
        | param d =>
          rcases List.mem_cons.1 hu with rfl | hu
          · exact Nat.succ_le_succ (heightAll_le_sizeAll d.bounds)
          · obtain ⟨b, hb, hub⟩ := List.mem_flatMap.1 hu
            have hle := Nat.le_trans (height_of_mem_spine hub) (height_le_size b)
            exact Nat.le_succ_of_le (Nat.le_trans hle (size_le_sizeAll hb))

/-! ### What a type leads to -/

/-- Without regard to type arguments, a type leads to its component, to its first component, or to
the bound that it stands for. -/
inductive Leads (s : Store) : Ty → Ty → Prop where
  | component {t : Ty} : Leads s (.array t) t
  | first {t : Ty} {ts : List Ty} : Leads s (.inter (t :: ts)) t
  | bound {t : Ty} (h : t.isVariable = true) : Leads s t (s.upperBound t)

theorem Leads.mem_met {v : Ty} (h : s.Leads u v) (hu : u ∈ s.met t) : v ∈ s.met t := by
  cases h with
  | component => exact component_mem_met hu
  | first => exact spine_subset_met hu (List.mem_cons_of_mem _ (mem_spine_self v))
  | bound => exact upperBound_mem_met hu

theorem mem_met_of_leads {v : Ty} (h : ReflTransGen s.Leads u v) (hu : u ∈ s.met t) :
    v ∈ s.met t := by
  induction h with
  | refl => exact hu
  | tail _ hstep ih => exact hstep.mem_met ih

/-- Except from a parameter, a type leads to smaller types, or to the root class. -/
theorem Leads.forms (h : s.Leads t u) : (∃ p, t = .param p) ∨ u = s.object ∨ u.size < t.size := by
  have hupper (k : WildcardKind) (b : Option Ty) : s.wildcardUpper ⟨k, b⟩ = s.object ∨
      (s.wildcardUpper ⟨k, b⟩).size < (Ty.wild k b).size := by
    cases k with
    | upper =>
      cases b with
      | none => exact .inl rfl
      | some b => exact .inr (Nat.lt_succ_self _)
    | lower => exact .inl rfl
  cases h with
  | component => exact .inr (.inr (Nat.lt_succ_self _))
  | @first u ts =>
    have hle := size_le_sizeAll (List.mem_cons_self (a := u) (l := ts))
    exact .inr (.inr (Nat.lt_succ_of_le hle))
  | bound hvariable =>
    cases t with
    | param p => exact .inl ⟨p, rfl⟩
    | wild k b => exact .inr (hupper k b)
    | captured i k b =>
      have hsize : (Ty.captured i k b).size = (Ty.wild k b).size := by cases b <;> rfl
      rw [hsize]
      exact .inr (hupper k b)
    | _ => cases hvariable

theorem not_leads_object (s : Store) (u : Ty) : ¬s.Leads s.object u := by
  rintro (_ | _ | ⟨hvariable⟩)
  cases hvariable

theorem boundBy_of_exposed {p q : ParamId} (hq : q ∈ (s.upperBound (.param p)).exposed) :
    s.BoundBy p q := by
  cases hb : s.bounds p with
  | nil =>
    rw [upperBound_of_nil hb] at hq
    cases hq
  | cons b bs =>
    cases bs with
    | nil =>
      rw [upperBound_of_single hb] at hq
      exact ⟨b, hb ▸ List.mem_cons_self, hq⟩
    | cons b' bs =>
      rw [upperBound_of_several hb, ← hb] at hq
      exact exists_of_mem_exposedAll hq

/-- What is exposed in a type that another leads to is exposed there, or bounds what is. -/
theorem Leads.exposed (h : s.Leads t u) {q : ParamId} (hq : q ∈ u.exposed) :
    ∃ p ∈ t.exposed, ReflTransGen s.BoundBy p q := by
  have hupper {k : WildcardKind} {b : Option Ty} (hq : q ∈ (s.wildcardUpper ⟨k, b⟩).exposed) :
      ∃ b', b = some b' ∧ q ∈ b'.exposed := by
    cases k with
    | upper =>
      cases b with
      | none => cases hq
      | some b => exact ⟨b, rfl, hq⟩
    | lower => cases hq
  cases h with
  | component => exact ⟨q, hq, .refl⟩
  | first => exact ⟨q, List.mem_append_left _ hq, .refl⟩
  | bound hvariable =>
    cases t with
    | param p => exact ⟨p, List.mem_cons_self, .single (boundBy_of_exposed hq)⟩
    | wild k b =>
      obtain ⟨b, rfl, hqb⟩ := hupper hq
      exact ⟨q, hqb, .refl⟩
    | captured i k b =>
      obtain ⟨b, rfl, hqb⟩ := hupper hq
      exact ⟨q, hqb, .refl⟩
    | _ => cases hvariable

theorem exposed_of_leads_many (h : ReflTransGen s.Leads t u) {q : ParamId} (hq : q ∈ u.exposed) :
    ∃ p ∈ t.exposed, ReflTransGen s.BoundBy p q := by
  induction h generalizing q with
  | refl => exact ⟨q, hq, .refl⟩
  | tail _ hstep ih =>
    obtain ⟨r, hr, hrq⟩ := hstep.exposed hq
    obtain ⟨p, hp, hpr⟩ := ih hr
    exact ⟨p, hp, hpr.trans hrq⟩

/-- As long as no parameter was passed, types get smaller; and nothing leads on from the root
class. -/
theorem exists_param_of_leads (h : TransGen s.Leads t u) :
    (∃ p, ReflTransGen s.Leads t (.param p) ∧ TransGen s.Leads (.param p) u) ∨ u = s.object ∨
      u.size < t.size := by
  induction h with
  | single hstep =>
    rcases hstep.forms with ⟨p, rfl⟩ | hform
    · exact .inl ⟨p, .refl, .single hstep⟩
    · exact .inr hform
  | @tail v u hv hstep ih =>
    rcases ih with ⟨p, htp, hpv⟩ | rfl | hsize
    · exact .inl ⟨p, htp, hpv.tail hstep⟩
    · exact absurd hstep (s.not_leads_object u)
    · rcases hstep.forms with ⟨p, rfl⟩ | hobject | hlt
      · exact .inl ⟨p, hv.to_reflTransGen, .single hstep⟩
      · exact .inr (.inl hobject)
      · exact .inr (.inr (Nat.lt_trans hlt hsize))

theorem not_leads_of_acyclic (hacyclic : ∀ p, ¬TransGen s.BoundBy p p) :
    ¬TransGen s.Leads t t := by
  intro h
  rcases exists_param_of_leads h with ⟨p, htp, hpt⟩ | rfl | hlt
  · obtain ⟨u, hstep, hu⟩ := TransGen.head'_iff.1 (hpt.trans_left htp)
    cases hstep with
    | bound =>
      obtain ⟨q, hq, hqp⟩ := exposed_of_leads_many hu (List.mem_cons_self (a := p) (l := []))
      exact hacyclic p (.head' (boundBy_of_exposed hq) hqp)
  · obtain ⟨u, hstep, _⟩ := TransGen.head'_iff.1 h
    exact s.not_leads_object u hstep
  · exact Nat.lt_irrefl _ hlt

end Store

end GenericCalls
