import GenericCalls.Inference.Siblings

/-! # What many matches say together

The first match that equates a type parameter with a type settles what the parameter is. Without
one, the types that bound it on one side are joined from left to right. The join breaks down where
two types have no upper bound in common; then the matches lead to nothing. -/

namespace GenericCalls

/-! ### Equations and bounds -/

def NoneEquates (rs : List MatchResult) : Prop := ∀ c, .found c ∈ rs → c.bearing ≠ .exactly

/-- The first match that equates the parameter with a type says that it is `t`. -/
def FirstEquates (rs : List MatchResult) (t : Ty) : Prop :=
  ∃ before after, rs = before ++ .found ⟨t, .exactly⟩ :: after ∧ NoneEquates before

def typesBearing (b : Bearing) : List MatchResult → List Ty
  | [] => []
  | .found c :: rs => if c.bearing = b then c.ty :: typesBearing b rs else typesBearing b rs
  | _ :: rs => typesBearing b rs

variable {r : MatchResult} {rs : List MatchResult} {t : Ty}

theorem noneEquates_cons_iff :
    NoneEquates (r :: rs) ↔ (∀ c, r = .found c → c.bearing ≠ .exactly) ∧ NoneEquates rs := by
  simp only [NoneEquates, List.mem_cons, or_imp, forall_and, eq_comm]

theorem firstEquates_cons_iff :
    FirstEquates (r :: rs) t ↔
      r = .found ⟨t, .exactly⟩ ∨
        (∀ c, r = .found c → c.bearing ≠ .exactly) ∧ FirstEquates rs t := by
  constructor
  · rintro ⟨before, after, heq, hnone⟩
    cases before with
    | nil =>
      cases heq
      exact .inl rfl
    | cons r' before =>
      cases heq
      obtain ⟨hr, hnone⟩ := noneEquates_cons_iff.1 hnone
      exact .inr ⟨hr, before, after, rfl, hnone⟩
  · rintro (rfl | ⟨hr, before, after, rfl, hnone⟩)
    · exact ⟨[], rs, rfl, nofun⟩
    · exact ⟨r :: before, after, rfl, noneEquates_cons_iff.2 ⟨hr, hnone⟩⟩

theorem firstExact?_found (c : Constraint) (rs : List MatchResult) :
    Store.firstExact? ((.found c :: rs).filterMap MatchResult.constraint?) =
      if c.bearing = .exactly then some c.ty
      else Store.firstExact? (rs.filterMap MatchResult.constraint?) :=
  Store.firstExact?_cons c _

theorem firstExact?_eq_some_iff :
    Store.firstExact? (rs.filterMap MatchResult.constraint?) = some t ↔ FirstEquates rs t := by
  induction rs with
  | nil => simp [Store.firstExact?, FirstEquates]
  | cons r rs ih =>
    rw [firstEquates_cons_iff, ← ih]
    cases r with
    | found c =>
      obtain ⟨u, b⟩ := c
      rw [firstExact?_found]
      by_cases h : b = .exactly <;> simp [h]
    | _ =>
      rw [List.filterMap_cons_none rfl]
      simp

theorem firstExact?_eq_none_iff :
    Store.firstExact? (rs.filterMap MatchResult.constraint?) = none ↔ NoneEquates rs := by
  induction rs with
  | nil => simp [Store.firstExact?, NoneEquates]
  | cons r rs ih =>
    rw [noneEquates_cons_iff, ← ih]
    cases r with
    | found c =>
      rw [firstExact?_found]
      by_cases h : c.bearing = .exactly <;> simp [h]
    | _ =>
      rw [List.filterMap_cons_none rfl]
      simp

theorem FirstEquates.not_noneEquates (h : FirstEquates rs t) : ¬NoneEquates rs := by
  obtain ⟨before, after, rfl, _⟩ := h
  exact fun hnone => hnone ⟨t, .exactly⟩ (by simp) rfl

theorem map_filter_bearing (b : Bearing) (rs : List MatchResult) :
    ((rs.filterMap MatchResult.constraint?).filter fun c => c.bearing == b).map Constraint.ty =
      typesBearing b rs := by
  induction rs with
  | nil => rfl
  | cons r rs ih =>
    cases r with
    | found c =>
      by_cases h : c.bearing = b <;> simp [typesBearing, MatchResult.constraint?, h, ih]
    | _ => exact ih

theorem mem_of_mem_typesBearing {b : Bearing} (h : t ∈ typesBearing b rs) :
    .found ⟨t, b⟩ ∈ rs := by
  induction rs with
  | nil => cases h
  | cons r rs ih =>
    cases r with
    | found c =>
      obtain ⟨u, b'⟩ := c
      by_cases hb : b' = b
      · subst hb
        rw [typesBearing, if_pos rfl] at h
        rcases List.mem_cons.1 h with rfl | h
        · exact List.mem_cons_self
        · exact List.mem_cons_of_mem _ (ih h)
      · rw [typesBearing, if_neg hb] at h
        exact List.mem_cons_of_mem _ (ih h)
    | _ => exact List.mem_cons_of_mem _ (ih h)

/-! ### Matches that count -/

/-- Whether a match equates the parameter with a type, or bears on it in the way `b`. -/
def MatchResult.counts (b : Bearing) : MatchResult → Bool
  | .found c => c.bearing == .exactly || c.bearing == b
  | _ => false

theorem firstExact?_filter_counts (b : Bearing) (rs : List MatchResult) :
    Store.firstExact? ((rs.filter (MatchResult.counts b)).filterMap MatchResult.constraint?) =
      Store.firstExact? (rs.filterMap MatchResult.constraint?) := by
  induction rs with
  | nil => rfl
  | cons r rs ih =>
    cases r with
    | found c =>
      by_cases hc : MatchResult.counts b (.found c) = true
      · rw [List.filter_cons_of_pos hc, firstExact?_found, firstExact?_found, ih]
      · have hexact : c.bearing ≠ .exactly := fun h => hc (by simp [MatchResult.counts, h])
        rw [List.filter_cons_of_neg hc, firstExact?_found, if_neg hexact, ih]
    | _ => exact ih

theorem typesBearing_filter_counts (b : Bearing) (rs : List MatchResult) :
    typesBearing b (rs.filter (MatchResult.counts b)) = typesBearing b rs := by
  induction rs with
  | nil => rfl
  | cons r rs ih =>
    cases r with
    | found c =>
      by_cases hc : MatchResult.counts b (.found c) = true
      · rw [List.filter_cons_of_pos hc, typesBearing, typesBearing, ih]
      · have hb : c.bearing ≠ b := fun h => hc (by simp [MatchResult.counts, h])
        rw [List.filter_cons_of_neg hc, typesBearing, if_neg hb, ih]
    | _ => exact ih

/-! ### Joins from left to right -/

namespace Store

variable {s : Store} {b : Bearing} {ts us : List Ty} {v w : Ty} {a : Option Ty}

/-- The type `t` is joined with the types of a list, from left to right, and every step is
defined. -/
inductive Joins (s : Store) : Ty → List Ty → Ty → Prop where
  | nil {t : Ty} : Joins s t [] t
  | cons {t u v w : Ty} {us : List Ty} (h : s.lub t u = some v) (rest : Joins s v us w) :
      Joins s t (u :: us) w

/-- The join of types breaks down: those before the type `v` are joined, and what they make has no
upper bound in common with `v`. The types `after` are left. -/
inductive Breaks (s : Store) : List Ty → Ty → List Ty → Prop where
  | intro {t u v : Ty} (before : List Ty) {after : List Ty} (h : s.Joins t before u)
      (hbreak : s.lub u v = none) : Breaks s (t :: (before ++ v :: after)) v after

theorem foldlM_lub_eq_some_iff :
    us.foldlM (fun u v => s.lub u v) t = some w ↔ s.Joins t us w := by
  induction us generalizing t with
  | nil =>
    constructor
    · intro h
      cases h
      exact .nil
    · intro h
      cases h
      rfl
  | cons u us ih =>
    rw [List.foldlM_cons, Option.bind_eq_bind, Option.bind_eq_some_iff]
    constructor
    · rintro ⟨v, hv, hrest⟩
      exact .cons hv (ih.1 hrest)
    · intro h
      cases h with
      | cons hv hrest => exact ⟨_, hv, ih.2 hrest⟩

/-- The types of a list are joined with `t`, or the join breaks down at one of them. -/
theorem joins_or_breaks (s : Store) (t : Ty) (us : List Ty) :
    (∃ w, s.Joins t us w) ∨ ∃ v after, s.Breaks (t :: us) v after := by
  induction us generalizing t with
  | nil => exact .inl ⟨t, .nil⟩
  | cons u us ih =>
    cases hu : s.lub t u with
    | none => exact .inr ⟨u, us, .intro [] .nil hu⟩
    | some x =>
      rcases ih x with ⟨w, hw⟩ | ⟨v, after, hbreak⟩
      · exact .inl ⟨w, .cons hu hw⟩
      · cases hbreak with
        | intro before h hnone => exact .inr ⟨_, _, .intro (u :: before) (.cons hu h) hnone⟩

theorem Joins.not_breaks (h : s.Joins t us w) {after : List Ty} :
    ¬s.Breaks (t :: us) v after := by
  intro hbreak
  cases hbreak with
  | intro before hbefore hnone =>
    rw [← foldlM_lub_eq_some_iff, List.foldlM_append, foldlM_lub_eq_some_iff.2 hbefore] at h
    simp [hnone] at h

theorem lubAll_eq_some_iff : s.lubAll ts = some u ↔ ∃ t us, ts = t :: us ∧ s.Joins t us u := by
  cases ts with
  | nil => simp [lubAll]
  | cons t us =>
    rw [lubAll, foldlM_lub_eq_some_iff]
    constructor
    · exact fun h => ⟨t, us, rfl, h⟩
    · rintro ⟨_, _, heq, h⟩
      cases heq
      exact h

theorem lubAll_eq_none_iff : s.lubAll ts = none ↔ ts = [] ∨ ∃ v after, s.Breaks ts v after := by
  cases ts with
  | nil => simp [lubAll]
  | cons t us =>
    rw [Option.eq_none_iff_forall_ne_some, or_iff_right (List.cons_ne_nil t us)]
    constructor
    · intro hnone
      refine (joins_or_breaks s t us).resolve_left ?_
      rintro ⟨w, hw⟩
      exact hnone w (lubAll_eq_some_iff.2 ⟨t, us, rfl, hw⟩)
    · rintro ⟨v, after, hbreak⟩ w hw
      obtain ⟨_, _, heq, hw⟩ := lubAll_eq_some_iff.1 hw
      cases heq
      exact hw.not_breaks hbreak

/-! ### Conclusions -/

/-- What matches lead to: the type of the first equation, or else the join of the types with the
bearing `b`. They lead to nothing if there are no such types, or their join breaks down. -/
inductive LeadTo (s : Store) (b : Bearing) (rs : List MatchResult) : Option Ty → Prop where
  | equated {t : Ty} (h : FirstEquates rs t) : LeadTo s b rs (some t)
  | joined {t u : Ty} {ts : List Ty} (hnone : NoneEquates rs) (hts : typesBearing b rs = t :: ts)
      (h : s.Joins t ts u) : LeadTo s b rs (some u)
  | silent (hnone : NoneEquates rs) (hts : typesBearing b rs = []) : LeadTo s b rs none
  | broken {v : Ty} {after : List Ty} (hnone : NoneEquates rs)
      (h : s.Breaks (typesBearing b rs) v after) : LeadTo s b rs none

theorem leadTo_iff : s.LeadTo b rs a ↔
    a = (firstExact? (rs.filterMap MatchResult.constraint?)).or (s.lubAll (typesBearing b rs)) := by
  constructor
  · intro h
    cases h with
    | equated h => rw [firstExact?_eq_some_iff.2 h, Option.some_or]
    | joined hnone hts h =>
      rw [firstExact?_eq_none_iff.2 hnone, Option.none_or, lubAll_eq_some_iff.2 ⟨_, _, hts, h⟩]
    | silent hnone hts =>
      rw [firstExact?_eq_none_iff.2 hnone, Option.none_or, lubAll_eq_none_iff.2 (.inl hts)]
    | broken hnone h =>
      rw [firstExact?_eq_none_iff.2 hnone, Option.none_or,
        lubAll_eq_none_iff.2 (.inr ⟨_, _, h⟩)]
  · rintro rfl
    cases hexact : firstExact? (rs.filterMap MatchResult.constraint?) with
    | some t => exact .equated (firstExact?_eq_some_iff.1 hexact)
    | none =>
      have hnone := firstExact?_eq_none_iff.1 hexact
      rw [Option.none_or]
      cases hjoin : s.lubAll (typesBearing b rs) with
      | some u =>
        obtain ⟨t, ts, hts, h⟩ := lubAll_eq_some_iff.1 hjoin
        exact .joined hnone hts h
      | none =>
        rcases lubAll_eq_none_iff.1 hjoin with hts | ⟨v, after, h⟩
        · exact .silent hnone hts
        · exact .broken hnone h

/-- Matches that say nothing, fail or are raw have no part in what the others lead to, nor have
bounds on the other side. -/
theorem leadTo_filter_counts_iff :
    s.LeadTo b (rs.filter (MatchResult.counts b)) a ↔ s.LeadTo b rs a := by
  rw [leadTo_iff, leadTo_iff, firstExact?_filter_counts, typesBearing_filter_counts]

theorem exists_leadTo (s : Store) (b : Bearing) (rs : List MatchResult) : ∃ a, s.LeadTo b rs a :=
  ⟨_, leadTo_iff.2 rfl⟩

end Store

end GenericCalls
