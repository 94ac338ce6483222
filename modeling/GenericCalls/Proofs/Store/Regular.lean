import GenericCalls.Proofs.Store.Ancestors
import GenericCalls.Proofs.Store.Ownership
import GenericCalls.Proofs.Ty.Bounded
import GenericCalls.Store.Bounds
import Mathlib.Data.Fintype.EquivFin

/-! # Regular stores

The algorithms on types follow bounds and supertypes. They may do so safely in a store where no type
parameter is bounded by itself, the root class stands above all, and what is declared is built of
types that can stand where they do. -/

namespace GenericCalls

namespace Ty

mutual
def exposed : Ty → List ParamId
  | .prim _ => []
  | .array t => exposed t
  | .cls _ _ => []
  | .param p => [p]
  | .wild _ none => []
  | .wild _ (some b) => exposed b
  | .captured _ _ none => []
  | .captured _ _ (some b) => exposed b
  | .inter ts => exposedAll ts
  | .null => []
  | .unknown => []
def exposedAll : List Ty → List ParamId
  | [] => []
  | t :: ts => exposed t ++ exposedAll ts
end

theorem mem_exposedAll {p : ParamId} {t : Ty} {ts : List Ty} (ht : t ∈ ts) (hp : p ∈ exposed t) :
    p ∈ exposedAll ts := by
  induction ts with
  | nil => cases ht
  | cons u ts ih =>
    rw [exposedAll, List.mem_append]
    rcases List.mem_cons.1 ht with rfl | ht
    · exact .inl hp
    · exact .inr (ih ht)

theorem exists_of_mem_exposedAll {p : ParamId} {ts : List Ty} (hp : p ∈ exposedAll ts) :
    ∃ t ∈ ts, p ∈ exposed t := by
  induction ts with
  | nil => cases hp
  | cons t ts ih =>
    rcases List.mem_append.1 hp with hp | hp
    · exact ⟨t, List.mem_cons_self, hp⟩
    · obtain ⟨u, hu, hp⟩ := ih hp
      exact ⟨u, List.mem_cons_of_mem t hu, hp⟩

end Ty

namespace Store

open Ty

/-- A bound of the parameter `p` has the parameter `q` in it, outside of type arguments. -/
def BoundBy (s : Store) (p q : ParamId) : Prop := ∃ b ∈ s.bounds p, q ∈ b.exposed

/-- No parameter is bounded by itself, the root class has no supertypes, and no class has too many
ancestors. -/
structure Orderly (s : Store) : Prop where
  acyclic : ∀ p, ¬Relation.TransGen s.BoundBy p p
  rootBare : s.RootBare
  few : ∀ c, FewAncestors s c

/-- In an orderly store, declared bounds are solid and regular, and declared supertypes become
regular with regular type arguments. -/
structure Regular (s : Store) : Prop extends Orderly s where
  bounds : ∀ p, ∀ b ∈ s.bounds p, b.solid = true ∧ b.regular = true
  supertypes : ∀ c d, s.class? c = some d → ∀ t ∈ d.supertypes, templateAll t.args = true

variable {s : Store}

/-! ### Bounds in order -/

theorem bounds_eq_nil {p : ParamId} (h : s.size < p) : s.bounds p = [] := by
  simp only [bounds, param?, decl?_eq_none h]
  rfl

theorem class?_eq_none {c : ClassId} (h : s.size < c) : s.class? c = none := by
  simp only [class?, decl?_eq_none h]

/-- Where no parameter is bounded by itself, bounds lead from parameter to parameter only finitely
often. -/
theorem wellFounded_of_acyclic (hacyclic : ∀ p, ¬Relation.TransGen s.BoundBy p p) :
    WellFounded fun q p => s.BoundBy p q := by
  -- Only declared parameters have bounds, and a strict order on finitely many is well-founded.
  let below (i j : Fin (s.size + 1)) : Prop := Relation.TransGen s.BoundBy j.val i.val
  have htrans : IsTrans (Fin (s.size + 1)) below := ⟨fun _ _ _ hij hjk => hjk.trans hij⟩
  have hirrefl : Std.Irrefl below := ⟨fun i => hacyclic i.val⟩
  have hwf : WellFounded below := Finite.wellFounded_of_trans_of_irrefl below
  have hunbounded (p : ParamId) (hp : s.size < p) : Acc (fun q p => s.BoundBy p q) p := by
    refine ⟨p, fun q hq => ?_⟩
    obtain ⟨b, hb, _⟩ := hq
    rw [bounds_eq_nil hp] at hb
    cases hb
  have hdeclared (i : Fin (s.size + 1)) : Acc (fun q p => s.BoundBy p q) i.val := by
    induction i using hwf.induction with
    | _ i ih =>
      refine ⟨i.val, fun q hq => ?_⟩
      by_cases hlt : s.size < q
      · exact hunbounded q hlt
      · exact ih ⟨q, by omega⟩ (.single hq)
  refine ⟨fun p => ?_⟩
  by_cases hlt : s.size < p
  · exact hunbounded p hlt
  · exact hdeclared ⟨p, by omega⟩

theorem Regular.wellFounded (hs : s.Regular) : WellFounded fun q p => s.BoundBy p q :=
  wellFounded_of_acyclic hs.acyclic

/-! ### Upper bounds -/

theorem upperBound_of_nil {p : ParamId} (h : s.bounds p = []) :
    s.upperBound (.param p) = s.object := by
  simp only [upperBound, h]

theorem upperBound_of_single {p : ParamId} {b : Ty} (h : s.bounds p = [b]) :
    s.upperBound (.param p) = b := by
  simp only [upperBound, h]

theorem upperBound_of_several {p : ParamId} {b b' : Ty} {bs : List Ty}
    (h : s.bounds p = b :: b' :: bs) : s.upperBound (.param p) = .inter (b :: b' :: bs) := by
  simp only [upperBound, h]

theorem Regular.upperBound_param (hs : s.Regular) (p : ParamId) :
    (s.upperBound (.param p)).solid = true ∧ (s.upperBound (.param p)).regular = true := by
  have hbounds := hs.bounds p
  cases hp : s.bounds p with
  | nil =>
    rw [upperBound_of_nil hp]
    exact ⟨rfl, rfl⟩
  | cons b bs =>
    rw [hp] at hbounds
    cases bs with
    | nil =>
      rw [upperBound_of_single hp]
      exact hbounds b List.mem_cons_self
    | cons b' bs =>
      rw [upperBound_of_several hp]
      exact ⟨solidAll_iff.2 fun t ht => (hbounds t ht).1,
        regular_inter_iff.2 ⟨List.cons_ne_nil _ _, hbounds⟩⟩

theorem Regular.regular_upperBound (hs : s.Regular) {t : Ty} (h : t.regular = true) :
    (s.upperBound t).regular = true := by
  cases t with
  | param p => exact (hs.upperBound_param p).2
  | wild k b =>
    cases b with
    | none => cases k <;> rfl
    | some b =>
      cases k with
      | upper => exact (regular_wild_iff.1 h).2
      | lower => rfl
  | captured i k b =>
    cases b with
    | none => cases k <;> rfl
    | some b =>
      cases k with
      | upper => exact (regular_captured_iff.1 h).2
      | lower => rfl
  | _ => exact h

theorem Regular.primFree_upperBound (hs : s.Regular) {t : Ty} (hregular : t.regular = true)
    (hfree : t.primFree = true) : (s.upperBound t).primFree = true := by
  cases t with
  | param p => exact primFree_of_solid (hs.upperBound_param p).1
  | wild k b =>
    cases b with
    | none => cases k <;> rfl
    | some b =>
      cases k with
      | lower => rfl
      | upper =>
        have hprim : b.isPrim = false := by simpa [primFree] using hfree
        have hbound := (regular_wild_iff.1 hregular).1
        rw [hprim] at hbound
        exact hbound.resolve_left Bool.false_ne_true
  | captured i k b =>
    cases b with
    | none => cases k <;> rfl
    | some b =>
      cases k with
      | lower => rfl
      | upper => exact (regular_captured_iff.1 hregular).1
  | _ => exact hfree

theorem Regular.isPrim_or_primFree_upperBound (hs : s.Regular) {t : Ty} (h : t.regular = true) :
    (s.upperBound t).isPrim = true ∨ (s.upperBound t).primFree = true := by
  cases hfree : t.primFree with
  | true => exact .inr (hs.primFree_upperBound h hfree)
  | false =>
    cases t with
    | prim p => exact .inl rfl
    | wild k b =>
      cases b with
      | none => cases hfree
      | some b =>
        cases k with
        | lower => exact .inr rfl
        | upper => exact (regular_wild_iff.1 h).1
    | _ => cases hfree

/-! ### Supertypes -/

theorem Regular.regular_directSupertypes (hs : s.Regular) {c : ClassTy}
    (hc : regularAll c.args = true) :
    ∀ t ∈ s.directSupertypes c, regularAll t.args = true := by
  intro t ht
  unfold directSupertypes at ht
  cases hd : s.class? c.id with
  | none =>
    rw [hd] at ht
    cases ht
  | some d =>
    rw [hd] at ht
    dsimp only at ht
    split at ht
    · obtain ⟨u, _, rfl⟩ := List.mem_map.1 ht
      rfl
    · rename_i hraw
      rw [Bool.or_eq_true, not_or, List.isEmpty_iff, bne_iff_ne, ne_eq,
        Decidable.not_not] at hraw
      obtain ⟨hne, hlength⟩ := hraw
      obtain ⟨u, hu, rfl⟩ := List.mem_map.1 ht
      have htemplates := templateAll_iff.1 (hs.supertypes _ d hd u hu)
      have hbinds : ∀ p b, (Substitution.ofArgs d.params c.args).get? p = some b →
          ∃ t, b = .bound t ∧ regular t = true := by
        intro p b hb
        obtain ⟨_, t, ht, rfl⟩ := Substitution.get?_ofArgs hb
        exact ⟨t, rfl, regularAll_iff.1 hc t ht⟩
      obtain ⟨us, hus, _, hregular, _⟩ := Substitution.applyAll_fills fun t ht =>
        Substitution.apply_fills hbinds t (htemplates t ht)
      have hempty := Substitution.isEmpty_ofArgs hne hlength
      unfold Substitution.substituteClass
      rw [if_neg (by rw [hempty]; exact Bool.false_ne_true), hus]
      exact regularAll_iff.2 hregular

theorem Regular.regular_ancestorArgs (hs : s.Regular) {c : ClassTy} {d : ClassId}
    {args : List Ty} (hc : regularAll c.args = true) (h : s.ancestorArgs c d = some args) :
    regularAll args = true := by
  have hinvariant := ancestorArgs_invariant (P := fun c => regularAll c.args = true)
    (fun c hc => hs.regular_directSupertypes hc) hc h
  rcases hinvariant with ⟨_, rfl⟩ | hargs
  · rfl
  · exact hargs

/-! ### Checks over all declarations -/

theorem acyclic_of_exposed (h : ∀ p, ∀ b ∈ s.bounds p, b.exposed = []) (p : ParamId) :
    ¬Relation.TransGen s.BoundBy p p := by
  have hnone (p q : ParamId) : ¬s.BoundBy p q := by
    rintro ⟨b, hb, hq⟩
    rw [h p b hb] at hq
    cases hq
  intro hcycle
  cases hcycle with
  | single h => exact hnone _ _ h
  | tail _ h => exact hnone _ _ h

theorem mem_supers_of_ancestor {c d : ClassId} (h : Ancestor s c d) :
    d ∈ (List.range (s.size + 1)).flatMap s.supers := by
  have hsuper : ∃ e, d ∈ s.supers e := by
    cases h with
    | single h => exact ⟨_, h⟩
    | tail _ h => exact ⟨_, h⟩
  obtain ⟨e, he⟩ := hsuper
  refine List.mem_flatMap.2 ⟨e, List.mem_range.2 ?_, he⟩
  rcases Nat.lt_or_ge s.size e with hlt | hle
  · unfold supers at he
    rw [class?_eq_none hlt] at he
    cases he
  · exact Nat.lt_succ_of_le hle

theorem fewAncestors_of_length
    (h : ((List.range (s.size + 1)).flatMap s.supers).length < Limits.hierarchy) (c : ClassId) :
    FewAncestors s c :=
  ⟨_, h, fun _ => mem_supers_of_ancestor⟩

theorem forall_bounds {P : Ty → Prop} (h : ∀ p < s.size + 1, ∀ b ∈ s.bounds p, P b) (p : ParamId) :
    ∀ b ∈ s.bounds p, P b := by
  intro b hb
  rcases Nat.lt_or_ge s.size p with hlt | hle
  · rw [bounds_eq_nil hlt] at hb
    cases hb
  · exact h p (Nat.lt_succ_of_le hle) b hb

theorem orderly_of_exposed (hbounds : ∀ p < s.size + 1, ∀ b ∈ s.bounds p, b.exposed = [])
    (hroot : s.supers s.root = [])
    (hfew : ((List.range (s.size + 1)).flatMap s.supers).length < Limits.hierarchy) : s.Orderly :=
  ⟨acyclic_of_exposed (forall_bounds hbounds), hroot, fewAncestors_of_length hfew⟩

theorem forall_classes {P : ClassId → ClassDecl → Prop}
    (h : ∀ c < s.size + 1, ∀ d ∈ s.class? c, P c d) (c : ClassId) (d : ClassDecl)
    (hd : s.class? c = some d) : P c d := by
  rcases Nat.lt_or_ge s.size c with hlt | hle
  · rw [class?_eq_none hlt] at hd
    cases hd
  · exact h c (Nat.lt_succ_of_le hle) d hd

theorem forall_supertypes {P : ClassTy → Prop}
    (h : ∀ c < s.size + 1, ∀ d ∈ s.class? c, ∀ t ∈ d.supertypes, P t) :
    ∀ c d, s.class? c = some d → ∀ t ∈ d.supertypes, P t :=
  forall_classes h

end Store

end GenericCalls
