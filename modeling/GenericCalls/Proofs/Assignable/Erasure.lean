import GenericCalls.Proofs.Assignable.Nesting
import GenericCalls.Proofs.Store.Erasure

/-! # Assigning a type to its erasure

Erasure and assignability follow bounds in different ways. Erasure goes on to the first bound of a
parameter, as long as it finds parameters, and gives up on other bounds; a check may go on to any
bound, and takes the root class where there is none. Where bounds are sensible both ways lead to the
same end: a type may be assigned to its erasure. -/

namespace GenericCalls

namespace Ty

/-- Whether a type is neither primitive nor the type of `null`. -/
def isBearable (t : Ty) : Bool := !t.isPrim && !t.isNull

/-- Whether a type is known in all its parts, has no empty intersection, and neither a primitive type
nor that of `null` as a bound or as a component. -/
def wellBounded (t : Ty) : Bool := formed isBearable isBearable isBearable t

theorem wellBounded_inter_iff {ts : List Ty} : wellBounded (.inter ts) = true ↔
    ts ≠ [] ∧ ∀ t ∈ ts, t.isBearable = true ∧ wellBounded t = true := by
  rw [wellBounded, formed, Bool.and_eq_true, Bool.and_eq_true, formedAll_iff, List.all_eq_true,
    Bool.not_eq_true', List.isEmpty_eq_false_iff]
  constructor
  · rintro ⟨⟨hne, hbearable⟩, hbounded⟩
    exact ⟨hne, fun t ht => ⟨hbearable t ht, hbounded t ht⟩⟩
  · rintro ⟨hne, h⟩
    exact ⟨⟨hne, fun t ht => (h t ht).1⟩, fun t ht => (h t ht).2⟩

theorem wellBounded_wild_iff {k : WildcardKind} {b : Ty} :
    wellBounded (.wild k (some b)) = true ↔ b.isBearable = true ∧ wellBounded b = true := by
  rw [wellBounded, formed, Bool.and_eq_true]
  rfl

theorem wellBounded_captured_iff {i : CaptureId} {k : WildcardKind} {b : Ty} :
    wellBounded (.captured i k (some b)) = true ↔ b.isBearable = true ∧ wellBounded b = true := by
  rw [wellBounded, formed, Bool.and_eq_true]
  rfl

end Ty

namespace Store

open Ty Relation

variable {s : Store} {boxing : Bool} {t u : Ty} {p : ParamId} {n : Nat}

def WellBounded (s : Store) : Prop :=
  ∀ p, ∀ b ∈ s.bounds p, b.isBearable = true ∧ b.wellBounded = true

theorem wildcardUpper_bearable {w : Wildcard}
    (h : ∀ b, w.bound = some b → b.isBearable = true ∧ b.wellBounded = true) :
    (s.wildcardUpper w).isBearable = true ∧ (s.wildcardUpper w).wellBounded = true := by
  obtain ⟨k, b⟩ := w
  cases k with
  | lower => exact ⟨rfl, rfl⟩
  | upper =>
    cases b with
    | none => exact ⟨rfl, rfl⟩
    | some b => exact h b rfl

/-- What a source is taken apart into can stand as a bound, the component of an array aside. -/
theorem parts_bearable (hs : s.WellBounded) (ht : t.wellBounded = true)
    (harray : ∀ c, t ≠ .array c) (hu : u ∈ s.parts t) :
    u.isBearable = true ∧ u.wellBounded = true := by
  cases t with
  | array c => exact absurd rfl (harray c)
  | wild k b =>
    rw [List.mem_singleton.1 hu]
    refine wildcardUpper_bearable fun b' hb => ?_
    cases hb
    exact wellBounded_wild_iff.1 ht
  | captured i k b =>
    rw [List.mem_singleton.1 hu]
    refine wildcardUpper_bearable fun b' hb => ?_
    cases hb
    exact wellBounded_captured_iff.1 ht
  | inter ts => exact (wellBounded_inter_iff.1 ht).2 u hu
  | param p => exact hs p u hu
  | _ => cases hu

/-! ### The root class -/

theorem assignableWithin_object (hs : s.WellBounded) (hbearable : u.isBearable = true)
    (hu : u.wellBounded = true) (hn : s.nestedWithin n u = true) :
    s.assignableWithin boxing n s.object u = true := by
  induction n generalizing u with
  | zero => cases hn
  | succ n ih =>
    have hpart : ∀ v ∈ s.parts u, (∀ c, u ≠ .array c) →
        s.assignableWithin boxing n s.object v = true := by
      intro v hv harray
      obtain ⟨hvbearable, hvbounded⟩ := parts_bearable hs hu harray hv
      exact ih hvbearable hvbounded (nestedWithin_of_parts hn hv)
    refine assignableStep_of_rule ?_
    cases u with
    | prim p => cases hbearable
    | null => cases hbearable
    | unknown => cases hu
    | array t => exact .arrayObject
    | cls c args => exact .object
    | wild k b => exact .upper rfl rfl (hpart _ List.mem_cons_self nofun)
    | captured i k b => exact .upper rfl rfl (hpart _ List.mem_cons_self nofun)
    | inter ts =>
      obtain ⟨t, ht⟩ := List.exists_mem_of_ne_nil ts (wellBounded_inter_iff.1 hu).1
      exact .component rfl ht (hpart t ht nofun)
    | param p =>
      cases hp : s.bounds p with
      | nil => exact .unbounded hp (beq_self_eq_true s.root)
      | cons b bs =>
        have hb : b ∈ s.bounds p := hp ▸ List.mem_cons_self
        exact .param rfl hb (hpart b hb nofun)

/-! ### Erasures -/

section Erasures

variable (hs : s.WellBounded) (hacyclic : ∀ p, ¬TransGen s.BoundBy p p)
include hs hacyclic

theorem isPlain_erasure (hbearable : t.isBearable = true) (ht : t.wellBounded = true)
    (hn : s.nestedWithin n t = true) : (s.erasure t).isPlain = true := by
  have hno := no_circle_of_acyclic hacyclic
  induction n generalizing t with
  | zero => cases hn
  | succ n ih =>
    have hstep : ∀ {u}, s.Erases t u → u ∈ s.parts t → (∀ c, t ≠ .array c) →
        (s.erasure t).isPlain = true := by
      intro u h hu harray
      obtain ⟨hubearable, hubounded⟩ := parts_bearable hs ht harray hu
      rw [erasure_eq_of_erases (hno t) h (harray u)]
      exact ih hubearable hubounded (nestedWithin_of_parts hn hu)
    cases t with
    | prim p => cases hbearable
    | null => cases hbearable
    | unknown => cases ht
    | array t =>
      rw [erasure_array (hno _)]
      rfl
    | cls c args =>
      rw [erasure_cls]
      rfl
    | wild k b => exact hstep .wild List.mem_cons_self nofun
    | captured i k b => exact hstep .captured List.mem_cons_self nofun
    | inter ts =>
      cases ts with
      | nil => cases ht
      | cons t ts => exact hstep .first List.mem_cons_self nofun
    | param p =>
      cases hb : s.boundedBy? Limits.boundChain p with
      | none =>
        rw [show s.erasure (.param p) = s.object from paramErasure_of_unbounded hb]
        rfl
      | some b =>
        rw [erasure_eq_of_erases (hno _) (.bounded hb) nofun]
        rcases form_of_boundedBy? hb with ⟨v, rfl⟩ | ⟨c, args, rfl⟩
        · rw [erasure_array (hno _)]
          rfl
        · rw [erasure_cls]
          rfl

theorem isPrim_erasure (hprim : t.isPrim = false) (ht : t.wellBounded = true)
    (hn : s.nestedWithin n t = true) : (s.erasure t).isPrim = false := by
  cases hnull : t.isNull with
  | true =>
    cases t with
    | null => rw [erasure_of_isErased rfl]; rfl
    | _ => cases hnull
  | false =>
    have hbearable : t.isBearable = true := by rw [isBearable, hprim, hnull]; rfl
    exact isPrim_of_isReference (isReference_of_isPlain
      (isPlain_erasure hs hacyclic hbearable ht hn))

/-- A type may be assigned to its erasure, if the limit is as high as the type is nested. -/
theorem assignableWithin_erasure (ht : t.wellBounded = true) (hn : s.nestedWithin n t = true) :
    s.assignableWithin boxing n (s.erasure t) t = true := by
  have hno := no_circle_of_acyclic hacyclic
  induction n generalizing t with
  | zero => cases hn
  | succ n ih =>
    have hpart : ∀ {u}, s.erasure t = s.erasure u → u ∈ s.parts t → (∀ c, t ≠ .array c) →
        (s.erasure t).isPlain = true ∧ s.assignableWithin boxing n (s.erasure t) u = true := by
      intro u h hu harray
      obtain ⟨hubearable, hubounded⟩ := parts_bearable hs ht harray hu
      have hun := nestedWithin_of_parts hn hu
      rw [h]
      exact ⟨isPlain_erasure hs hacyclic hubearable hubounded hun, ih hubounded hun⟩
    have hstep : ∀ {u}, s.Erases t u → u ∈ s.parts t → (∀ c, t ≠ .array c) →
        (s.erasure t).isPlain = true ∧ s.assignableWithin boxing n (s.erasure t) u = true :=
      fun {u} h hu harray => hpart (erasure_eq_of_erases (hno t) h (harray u)) hu harray
    refine assignableStep_of_rule ?_
    cases t with
    | unknown => cases ht
    | prim p =>
      rw [erasure_prim]
      exact .same rfl (same_refl _)
    | null =>
      rw [erasure_of_isErased rfl]
      exact .null rfl
    | cls c args =>
      rw [erasure_cls]
      exact .raw (s.ancestorArgs_self ⟨c, args⟩) (.inl rfl)
    | array t =>
      rw [erasure_array (hno _)]
      have htn := nestedWithin_of_parts hn List.mem_cons_self
      cases hprim : t.isPrim with
      | true =>
        cases t with
        | prim p =>
          rw [erasure_prim]
          exact .same rfl (same_refl _)
        | _ => cases hprim
      | false =>
        have herased := isPrim_erasure hs hacyclic hprim ht htn
        exact .array (by rw [herased, hprim]; rfl) (ih ht htn)
    | wild k b =>
      obtain ⟨hplain, h⟩ := hstep .wild List.mem_cons_self nofun
      exact .upper hplain rfl h
    | captured i k b =>
      obtain ⟨hplain, h⟩ := hstep .captured List.mem_cons_self nofun
      exact .upper hplain rfl h
    | inter ts =>
      cases ts with
      | nil => cases ht
      | cons t ts =>
        obtain ⟨hplain, h⟩ := hstep .first List.mem_cons_self nofun
        exact .component hplain List.mem_cons_self h
    | param p =>
      cases hb : s.boundedBy? Limits.boundChain p with
      | none =>
        rw [show s.erasure (.param p) = s.object from paramErasure_of_unbounded hb]
        exact rule_of_assignableStep (assignableWithin_object hs rfl ht hn)
      | some b =>
        obtain ⟨v, hv, hfirst⟩ := erasure_eq_first hacyclic hb
        obtain ⟨hplain, h⟩ := hpart hfirst hv nofun
        exact .param hplain hv h

end Erasures

/-- Where no parameter is bounded by itself and declared bounds are sensible, a type may be assigned
to its erasure, with boxing or without: by some number of nested checks always, and within the limit
if the type is nested no deeper. -/
theorem subtype_erasure (s : Store) (hacyclic : ∀ p, ¬TransGen s.BoundBy p p)
    (hs : s.WellBounded) (t : Ty) (ht : t.wellBounded = true) :
    (∀ boxing, Accepts s boxing (s.erasure t) t) ∧
    (s.nestedWithin Limits.hierarchy t = true →
      s.subtype (s.erasure t) t = true ∧ s.assignable (s.erasure t) t = true) := by
  obtain ⟨n, hn⟩ := exists_nestedWithin hacyclic t
  exact ⟨fun _ => ⟨n, assignableWithin_erasure hs hacyclic ht hn⟩, fun hlimit =>
    ⟨assignableWithin_erasure hs hacyclic ht hlimit,
      assignableWithin_erasure hs hacyclic ht hlimit⟩⟩

/-- An array of captures of `? extends V`, where `V` is bounded by `U` and this by `Number[]`. -/
theorem subtype_erasure_severalForms :
    (∀ p, ¬TransGen severalForms.BoundBy p p) ∧ severalForms.WellBounded ∧
    severalForms.nestedWithin Limits.hierarchy
      (.array (.captured 1 .upper (some (.param 18)))) = true ∧
    severalForms.erasure (.array (.captured 1 .upper (some (.param 18)))) =
      .array (.array (.raw 2)) ∧
    severalForms.subtype (.array (.array (.raw 2)))
      (.array (.captured 1 .upper (some (.param 18)))) = true := by
  have hacyclic := severalForms_earlier.acyclic
  have hbounds : severalForms.WellBounded := forall_bounds (by decide +kernel)
  have herasure : severalForms.erasure (.array (.captured 1 .upper (some (.param 18)))) =
      .array (.array (.raw 2)) :=
    erasure_of_within (n := 5) (no_circle_of_acyclic hacyclic _) rfl
  have h := subtype_erasure severalForms hacyclic hbounds
    (.array (.captured 1 .upper (some (.param 18)))) rfl
  exact ⟨hacyclic, hbounds, rfl, herasure, herasure ▸ (h.2 rfl).1⟩

end Store

end GenericCalls
