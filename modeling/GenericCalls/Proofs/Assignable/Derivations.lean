import GenericCalls.Proofs.Assignable.Nesting
import GenericCalls.Proofs.Ty.Height

/-! # Assignability by derivation

The rules of assignability, without a limit on nested checks, say which assignments are derivable.
A check with a limit finds the derivations that are no higher than the limit. It misses none where
the target and the source together are nested no deeper; but the same two types may be put into so
many arrays that it finds none. -/

namespace GenericCalls

namespace Ty

def arrays : Nat → Ty → Ty
  | 0, t => t
  | n + 1, t => .array (arrays n t)

theorem arrays_array (n : Nat) (t : Ty) : arrays n (.array t) = .array (arrays n t) := by
  induction n with
  | zero => rfl
  | succ n ih => rw [arrays, ih, arrays]

theorem isReference_arrays {t : Ty} (h : t.isReference = true) (n : Nat) :
    (arrays n t).isReference = true := by
  cases n with
  | zero => exact h
  | succ n => rfl

/-- Whether a type is a wildcard that states a bound. -/
def isBoundedWild : Ty → Bool
  | .wild _ (some _) => true
  | _ => false

mutual
/-- Whether no class type that a target is taken apart into has a bounded wildcard among its type
arguments. -/
def rigid : Ty → Bool
  | .array t => rigid t
  | .cls _ args => args.all fun a => !a.isBoundedWild
  | .wild _ (some b) => rigid b
  | .inter ts => rigidAll ts
  | _ => true
def rigidAll : List Ty → Bool
  | [] => true
  | t :: ts => rigid t && rigidAll ts
end

theorem rigidAll_iff {ts : List Ty} : rigidAll ts = true ↔ ∀ t ∈ ts, rigid t = true := by
  induction ts with
  | nil => simp [rigidAll]
  | cons t ts ih => rw [rigidAll, Bool.and_eq_true, ih, List.forall_mem_cons]

end Ty

namespace Store

open Ty

variable {s : Store} {boxing : Bool} {t u : Ty} {n m : Nat}

/-! ### Derivations -/

/-- An assignment is derivable by the rules from derivable assignments. -/
inductive Derives (s : Store) (boxing : Bool) : Ty → Ty → Prop where
  | rule {t u : Ty} (h : Rule s boxing (Derives s boxing) t u) : Derives s boxing t u

/-- An assignment has a derivation with at most so many rules on top of one another. -/
def DerivesWithin (s : Store) (boxing : Bool) : Nat → Ty → Ty → Prop
  | 0, _, _ => False
  | n + 1, t, u => Rule s boxing (s.DerivesWithin boxing n) t u

theorem Derives.inv (h : s.Derives boxing t u) : Rule s boxing (s.Derives boxing) t u := by
  cases h with
  | rule h => exact h

/-- What is derivable is in every relation that obeys the rules. -/
theorem Derives.least {R : Ty → Ty → Prop} (hR : ∀ t u, Rule s boxing R t u → R t u)
    (h : s.Derives boxing t u) : R t u := by
  -- A rule rests on derivations inside its premises, so the recursor has a motive for rules as well.
  refine @Derives.rec s boxing (fun t u _ => R t u) (fun t u _ => Rule s boxing R t u) ?rule ?same
    ?null ?widen ?unbox ?box ?anything ?bound ?each ?component ?upper ?param ?unbounded ?array
    ?arrayObject ?object ?raw ?args t u h
  case rule => exact fun _ ih => hR _ _ ih
  case same => exact fun known h => .same known h
  case null => exact fun known => .null known
  case widen => exact fun h => .widen h
  case unbox => exact fun hboxing hu h => .unbox hboxing hu h
  case box => exact fun href hnull hboxing hq _ ih => .box href hnull hboxing hq ih
  case anything => exact fun href => .anything href
  case bound => exact fun href _ ih => .bound href ih
  case each => exact fun href _ ih => .each href ih
  case component => exact fun hplain hu _ ih => .component hplain hu ih
  case upper => exact fun hplain hv _ ih => .upper hplain hv ih
  case param => exact fun hplain hb _ ih => .param hplain hb ih
  case unbounded => exact fun hp h => .unbounded hp h
  case array => exact fun href _ ih => .array href ih
  case arrayObject => exact .arrayObject
  case object => exact .object
  case raw => exact fun hd hraw => .raw hd hraw
  case args => exact fun hd hmet _ ih => .args hd hmet ih

theorem derivesWithin_iff :
    s.DerivesWithin boxing n t u ↔ s.assignableWithin boxing n t u = true := by
  induction n generalizing t u with
  | zero => simp [DerivesWithin, assignableWithin]
  | succ n ih =>
    rw [DerivesWithin, assignableWithin, assignableStep_iff]
    exact ⟨Rule.mono fun t u => ih.1, Rule.mono fun t u => ih.2⟩

theorem derives_of_within (h : s.assignableWithin boxing n t u = true) : s.Derives boxing t u := by
  induction n generalizing t u with
  | zero => cases h
  | succ n ih => exact .rule ((rule_of_assignableStep h).mono fun t u => ih)

theorem derives_iff_accepts : s.Derives boxing t u ↔ Accepts s boxing t u :=
  ⟨Derives.least fun _ _ => accepts_iff.2, fun ⟨_, h⟩ => derives_of_within h⟩

/-! ### High enough limits -/

theorem not_check_of_rigid {args lifted : List Ty}
    (hargs : args.all (fun a => !a.isBoundedWild) = true) {p : Ty × Ty}
    (hp : p ∈ args.zip lifted) {t u : Ty} : s.demand p.1 p.2 ≠ .check t u := by
  have hwant := List.all_eq_true.1 hargs p.1 (List.of_mem_zip hp).1
  unfold demand
  split
  · exact nofun
  · rename_i hw
    rw [hw] at hwant
    cases hwant
  · rename_i hw
    rw [hw] at hwant
    cases hwant
  · split <;> exact nofun

theorem within_of_derives_cls {d : ClassId} {brgs : List Ty} (ht : t.rigid = true)
    (hn : t.height ≤ n) (hderives : s.Derives boxing t (.cls d brgs)) :
    s.assignableWithin boxing n t (.cls d brgs) = true := by
  induction n generalizing t with
  | zero => exact absurd hn (Nat.not_le.2 t.height_pos)
  | succ n ih =>
    refine assignableStep_of_rule ?_
    cases hderives.inv with
    | same known h => exact .same known h
    | unbox hboxing hu h => exact .unbox hboxing hu h
    | anything href => exact .anything href
    | bound href h => exact .bound href (ih ht (Nat.le_of_succ_le_succ hn) h)
    | each href h =>
      exact .each href fun t hmem =>
        ih (rigidAll_iff.1 ht t hmem) (heightAll_le_iff.1 (Nat.le_of_succ_le_succ hn) t hmem)
          (h t hmem)
    | upper _ hv _ => cases hv
    | object => exact .object
    | raw hd hraw => exact .raw hd hraw
    | args hd hmet _ =>
      exact .args hd hmet fun p hp t u hcheck => absurd hcheck (not_check_of_rigid ht hp)

/-- A limit that is as high as a rigid target and the source are nested together misses no
derivation. -/
theorem within_of_derives (ht : t.rigid = true) (hu : s.nestedWithin m u = true)
    (hn : t.height + m ≤ n) (hderives : s.Derives boxing t u) :
    s.assignableWithin boxing n t u = true := by
  induction n generalizing t u m with
  | zero =>
    have := t.height_pos
    omega
  | succ n ih =>
    obtain ⟨m, rfl⟩ : ∃ k, m = k + 1 := by
      cases m with
      | zero => cases hu
      | succ k => exact ⟨k, rfl⟩
    have hpart : ∀ v ∈ s.parts u, s.Derives boxing t v → s.assignableWithin boxing n t v = true :=
      fun v hv h => ih ht (nestedWithin_of_parts hu hv) (by omega) h
    refine assignableStep_of_rule ?_
    cases hderives.inv with
    | same known h => exact .same known h
    | null known => exact .null known
    | widen h => exact .widen h
    | unbox hboxing hu h => exact .unbox hboxing hu h
    | box href hnull hboxing hq h =>
      obtain ⟨c, _, rfl⟩ := Option.map_eq_some_iff.1 hq
      exact .box href hnull hboxing hq (within_of_derives_cls ht (by omega) h)
    | anything href => exact .anything href
    | bound href h =>
      rw [height] at hn
      exact .bound href (ih ht hu (by omega) h)
    | each href h =>
      rw [height] at hn
      refine .each href fun t hmem => ih (rigidAll_iff.1 ht t hmem) hu ?_ (h t hmem)
      have := height_le_heightAll hmem
      omega
    | component hplain hv h => exact .component hplain hv (hpart _ hv h)
    | @upper _ _ w hplain hv h =>
      have hmem : s.wildcardUpper w ∈ s.parts u := by
        cases u with
        | wild k b | captured i k b =>
          cases hv
          exact List.mem_cons_self
        | _ => cases hv
      exact .upper hplain hv (hpart _ hmem h)
    | param hplain hb h => exact .param hplain hb (hpart _ hb h)
    | unbounded hp h => exact .unbounded hp h
    | array href h =>
      rw [height] at hn
      exact .array href (ih ht (nestedWithin_of_parts hu List.mem_cons_self) (by omega) h)
    | arrayObject => exact .arrayObject
    | object => exact .object
    | raw hd hraw => exact .raw hd hraw
    | args hd hmet _ =>
      exact .args hd hmet fun p hp t u hcheck => absurd hcheck (not_check_of_rigid ht hp)

/-! ### Arrays -/

theorem assignableWithin_array (ht : t.isReference = true) (hu : u.isReference = true) :
    s.assignableWithin boxing (n + 2) (.array t) (.array u) =
      s.assignableWithin boxing (n + 1) t u := by
  have href : (t.isPrim || u.isPrim) = false := by
    rw [isPrim_of_isReference ht, isPrim_of_isReference hu, Bool.or_false]
  rw [Bool.eq_iff_iff]
  constructor
  · intro h
    cases rule_of_assignableStep h with
    | same _ hsame => exact assignableStep_of_rule (.same (isReference_iff.1 ht).1 hsame)
    | upper _ hv _ => cases hv
    | array _ h => exact h
  · exact fun h => assignableStep_of_rule (.array href h)

/-- Arrays of reference types are covariant, but each layer takes one nested check. -/
theorem assignableWithin_arrays (ht : t.isReference = true) (hu : u.isReference = true) (k : Nat) :
    s.assignableWithin boxing (n + 1 + k) (arrays k t) (arrays k u) =
      s.assignableWithin boxing (n + 1) t u := by
  induction k with
  | zero => rfl
  | succ k ih =>
    rw [← ih, show n + 1 + (k + 1) = n + k + 2 by omega, show n + 1 + k = n + k + 1 by omega]
    exact assignableWithin_array (isReference_arrays ht k) (isReference_arrays hu k)

theorem derives_arrays_iff (ht : t.isReference = true) (hu : u.isReference = true) (k : Nat) :
    s.Derives boxing (arrays k t) (arrays k u) ↔ s.Derives boxing t u := by
  rw [derives_iff_accepts, derives_iff_accepts]
  constructor
  · rintro ⟨n, h⟩
    have hmore := assignableWithin_mono h (Nat.le_add_right n (k + 1))
    rw [show n + (k + 1) = n + 1 + k by omega, assignableWithin_arrays ht hu] at hmore
    exact ⟨n + 1, hmore⟩
  · rintro ⟨n, h⟩
    refine ⟨n + 1 + k, ?_⟩
    rw [assignableWithin_arrays ht hu]
    exact assignableWithin_mono h (Nat.le_succ n)

/-! ### The limit -/

/-- Where the answer does not hang on what is assumed beyond the limit, it is the right one. -/
theorem within_iff_derives_of_beyond
    (h : s.assignableBeyond boxing n t u = s.assignableWithin boxing n t u) :
    s.assignableWithin boxing n t u = true ↔ s.Derives boxing t u :=
  ⟨derives_of_within, fun hderives =>
    h.symm.trans (assignableBeyond_of_accepts n (derives_iff_accepts.1 hderives))⟩

/-- A check with a limit finds an assignment exactly if it has a derivation no higher than the
limit. It misses none where its answer does not hang on what is assumed beyond the limit, and so
where the limit is as high as a rigid target and the source are nested together; every source is
nested finitely deep where no parameter is bounded by itself. Putting two reference types into
arrays changes no derivation, but each layer takes one nested check. -/
theorem assignableWithin_iff_derives (s : Store) (boxing : Bool) :
    (∀ n t u, s.assignableWithin boxing n t u = true ↔ s.DerivesWithin boxing n t u) ∧
    (∀ t u, s.Derives boxing t u ↔ ∃ n, s.DerivesWithin boxing n t u) ∧
    (∀ n t u, s.assignableBeyond boxing n t u = s.assignableWithin boxing n t u →
      (s.assignableWithin boxing n t u = true ↔ s.Derives boxing t u)) ∧
    (∀ m n t u, t.rigid = true → s.nestedWithin m u = true → t.height + m ≤ n →
      (s.assignableWithin boxing n t u = true ↔ s.Derives boxing t u)) ∧
    ((∀ p, ¬Relation.TransGen s.BoundBy p p) → ∀ u, ∃ m, s.nestedWithin m u = true) ∧
    ∀ k t u, t.isReference = true → u.isReference = true →
      (s.Derives boxing (arrays k t) (arrays k u) ↔ s.Derives boxing t u) ∧
      ∀ n, s.assignableWithin boxing (n + 1 + k) (arrays k t) (arrays k u) =
        s.assignableWithin boxing (n + 1) t u := by
  refine ⟨fun n t u => derivesWithin_iff.symm, fun t u => ?_, fun _ _ _ =>
    within_iff_derives_of_beyond, fun m n t u ht hu hn =>
    ⟨derives_of_within, within_of_derives ht hu hn⟩, exists_nestedWithin, fun k t u ht hu =>
    ⟨derives_arrays_iff ht hu k, fun n => assignableWithin_arrays ht hu k⟩⟩
  rw [derives_iff_accepts]
  exact exists_congr fun n => derivesWithin_iff.symm

/-- A hundred arrays deep, the rules alone decide whether `String` is a subtype of `CharSequence`. -/
theorem assignableWithin_iff_derives_strings :
    standard.subtype (arrays 100 (.raw 3)) (arrays 100 (.raw 4)) = true ↔
      standard.Derives false (arrays 100 (.raw 3)) (arrays 100 (.raw 4)) :=
  (assignableWithin_iff_derives standard false).2.2.2.1 101 Limits.hierarchy _ _ (by decide +kernel)
    (by decide +kernel) (by decide +kernel)

theorem not_ancestor_self (h : ∀ c, ∀ d ∈ s.supers c, d < c) (c : ClassId) :
    ¬Ancestor s c c := by
  have hlt {c d : ClassId} (hcd : Ancestor s c d) : d < c := by
    induction hcd with
    | single hstep => exact h _ _ hstep
    | tail _ hstep ih => exact Nat.lt_trans (h _ _ hstep) ih
  exact fun hself => Nat.lt_irrefl c (hlt hself)

/-- In 512 arrays, `String` is not found to be a subtype of `Object`, though it is by the rules. -/
theorem not_subtype_deep_arrays :
    (∀ p, ¬Relation.TransGen standard.BoundBy p p) ∧ (∀ c, ¬Ancestor standard c c) ∧
    (∀ boxing, standard.Derives boxing (arrays 512 (.raw 1)) (arrays 512 (.raw 4))) ∧
    standard.subtype (.raw 1) (.raw 4) = true ∧
    standard.assignable (arrays 512 (.raw 1)) (arrays 512 (.raw 4)) = false ∧
    standard.subtype (arrays 512 (.raw 1)) (arrays 512 (.raw 4)) = false := by
  have hearlier : ∀ c, ∀ d ∈ standard.supers c, d < c := by
    intro c d hd
    rcases Nat.lt_or_ge standard.size c with hlt | hle
    · rw [supers, class?_eq_none hlt] at hd
      cases hd
    · have hall : ∀ c < standard.size + 1, ∀ d ∈ standard.supers c, d < c := by decide +kernel
      exact hall c (Nat.lt_succ_of_le hle) d hd
  have hlayers (t : Ty) : arrays 512 t = arrays 511 (.array t) := (arrays_array 511 t).symm
  have hmissed (boxing : Bool) : standard.assignableWithin boxing (0 + 1 + 511)
      (arrays 512 (.raw 1)) (arrays 512 (.raw 4)) = false := by
    rw [hlayers, hlayers, assignableWithin_arrays rfl rfl]
    cases boxing <;> rfl
  refine ⟨acyclic_of_exposed (forall_bounds (by decide +kernel)), not_ancestor_self hearlier,
    fun boxing => (derives_arrays_iff rfl rfl 512).2 (.rule .object), rfl, hmissed true,
    hmissed false⟩

end Store

end GenericCalls
