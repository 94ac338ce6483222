import GenericCalls.Proofs.Assignable.Solid
import GenericCalls.Proofs.Store.Preserves
import GenericCalls.Proofs.Ty.Avoiding

/-! # Stores that keep parameters out

The type parameters of a callable are in scope in its own declaration only. A store keeps them out
of other types when its declarations do not bring them into a type that mentions none of them:
neither through the supertypes of a class, nor through the bounds of other parameters. The bounds of
the parameters themselves may mention them freely. -/

namespace GenericCalls.Store

open Ty

/-- The store does not bring the parameters `ps` into types that avoid them. A bound of a parameter
of a class is brought in where it is put in for `?`, unless it mentions a parameter of the class. -/
structure KeepsOut (s : Store) (ps : List ParamId) : Prop where
  supertypes : ∀ c : ClassTy, AllAvoid ps c.args →
    ∀ t ∈ s.directSupertypes c, AllAvoid ps t.args
  bounds : ∀ p, p ∉ ps → ∀ b ∈ s.bounds p, b.Avoids ps
  promoted : ∀ c, ∀ p ∈ s.classParams c, ∀ b ∈ s.primaryBound? p,
    b.Avoids ps ∨ ∃ q ∈ s.classParams c, b.mentions q = true

variable {s : Store} {ps : List ParamId} {t : Ty}

/-! ### Declarations -/

/-- Parameters that belong to no class, and that no supertype and no bound of another parameter
mentions, are kept out. -/
theorem keepsOut_of_declared
    (hsupers : ∀ c < s.size + 1, ∀ d ∈ s.class? c, ∀ t ∈ d.supertypes, AllAvoid ps t.args)
    (hparams : ∀ c < s.size + 1, ∀ d ∈ s.class? c, ∀ p ∈ d.params, p ∉ ps)
    (hbounds : ∀ p < s.size + 1, p ∉ ps → ∀ b ∈ s.bounds p, b.Avoids ps) : s.KeepsOut ps := by
  have hbounds : ∀ p, p ∉ ps → ∀ b ∈ s.bounds p, b.Avoids ps := by
    intro p hp b hb
    rcases Nat.lt_or_ge s.size p with hlt | hle
    · rw [bounds_eq_nil hlt] at hb
      cases hb
    · exact hbounds p (Nat.lt_succ_of_le hle) hp b hb
  constructor
  · intro c hc
    have hdeclared : ∀ d ∈ s.class? c.id, ∀ u ∈ d.supertypes, u.toTy.Avoids ps :=
      fun d hd u hu => avoids_cls_iff.2 (forall_supertypes hsupers _ d hd u hu)
    exact fun t ht => avoids_cls_iff.1 <|
      directSupertypes_of_declared (hereditary_avoids ps) hdeclared (avoids_cls_iff.2 hc) t ht
  · exact hbounds
  · intro c p hp b hb
    refine .inl (hbounds p ?_ b (List.mem_of_mem_head? hb))
    unfold classParams at hp
    cases hd : s.class? c with
    | none =>
      rw [hd] at hp
      cases hp
    | some d =>
      rw [hd] at hp
      exact forall_classes hparams c d hd p hp

theorem KeepsOut.preserves (hs : s.KeepsOut ps) : s.Preserves (Ty.Avoids ps) where
  toHereditary := hereditary_avoids ps
  null := fun _ _ => rfl
  object := avoids_raw ps s.root
  boxed := by
    intro p t ht
    obtain ⟨c, rfl⟩ := eq_raw_of_boxed ht
    exact avoids_raw ps c
  supertypes hc t ht := avoids_cls_iff.2 (hs.supertypes _ (avoids_cls_iff.1 hc) t ht)
  bounds hp := hs.bounds _ (avoids_param_iff.1 hp)
  promoted _ p hp b hb := hs.promoted _ p hp b hb

end GenericCalls.Store
