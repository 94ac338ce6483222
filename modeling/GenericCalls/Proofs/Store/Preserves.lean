import GenericCalls.Proofs.Store.Regular
import GenericCalls.Proofs.Ty.Hereditary
import GenericCalls.Store.Bounds

/-! # Stores that preserve a property

A store preserves a property of types if its declarations do not lead out of the types that have it:
neither the supertypes of a class nor the bounds of a type parameter. What is read off such a store
for types with the property then has it, too. -/

namespace GenericCalls.Store

open Ty

/-- The declarations of a store do not lead out of the types with a hereditary property. The primary
bound of a parameter of a class is put in for `?`, unless it mentions a parameter of the class. -/
structure Preserves (s : Store) (P : Ty → Prop) : Prop extends Hereditary P where
  null : P .null
  object : P s.object
  boxed : ∀ {p t}, s.boxed? p = some t → P t
  supertypes : ∀ {c : ClassTy}, P c.toTy → ∀ t ∈ s.directSupertypes c, P t.toTy
  bounds : ∀ {p}, P (.param p) → ∀ b ∈ s.bounds p, P b
  promoted : ∀ {c args}, P (.cls c args) → ∀ p ∈ s.classParams c, ∀ b ∈ s.primaryBound? p,
    P b ∨ ∃ q ∈ s.classParams c, b.mentions q = true

theorem preserves_true (s : Store) : s.Preserves fun _ => True where
  array := Iff.rfl
  inter := ⟨fun _ _ _ => trivial, fun _ => trivial⟩
  unbounded _ := trivial
  wild := Iff.rfl
  captured := Iff.rfl
  args _ _ _ := trivial
  refill _ _ _ := trivial
  raw _ := trivial
  null := trivial
  object := trivial
  boxed _ := trivial
  supertypes _ _ _ := trivial
  bounds _ _ _ := trivial
  promoted _ _ _ _ _ := .inl trivial

variable {s : Store} {P : Ty → Prop} {t u : Ty}

theorem directSupertypes_of_declared (hP : Hereditary P) {c : ClassTy}
    (hdeclared : ∀ d ∈ s.class? c.id, ∀ u ∈ d.supertypes, P u.toTy) (hc : P c.toTy) :
    ∀ t ∈ s.directSupertypes c, P t.toTy := by
  intro t ht
  unfold directSupertypes at ht
  split at ht
  · cases ht
  · rename_i d hd
    split at ht
    · obtain ⟨u, hu, rfl⟩ := List.mem_map.1 ht
      exact hP.raw (hdeclared d hd u hu)
    · obtain ⟨u, hu, rfl⟩ := List.mem_map.1 ht
      refine hP.substituteClass (fun p b hb => ?_) (hdeclared d hd u hu)
      obtain ⟨_, b', hb', heq⟩ := Substitution.get?_ofArgs hb
      cases heq
      exact hP.args hc b hb'

namespace Preserves

/-! ### Ancestors -/

theorem ancestorArgs (hs : s.Preserves P) {c : ClassTy} {d : ClassId} {args : List Ty}
    (hc : P c.toTy) (h : s.ancestorArgs c d = some args) : P (.cls d args) := by
  have hinvariant := ancestorArgs_invariant (P := fun c => P c.toTy)
    (fun c hc => hs.supertypes hc) hc h
  rcases hinvariant with ⟨rfl, rfl⟩ | hargs
  · exact hs.object
  · exact hargs

theorem raw_of_ancestor (hs : s.Preserves P) {c d : ClassId} (hc : P (.raw c))
    (h : Ancestor s c d) : P (.raw d) := by
  have hsuper {c d : ClassId} (hc : P (.raw c)) (hd : d ∈ s.supers c) : P (.raw d) := by
    have hmem : d ∈ (s.directSupertypes (.raw c)).map ClassTy.id := by
      rwa [map_id_directSupertypes]
    obtain ⟨t, ht, rfl⟩ := List.mem_map.1 hmem
    exact hs.raw (hs.supertypes (c := .raw c) hc t ht)
  induction h with
  | single hd => exact hsuper hc hd
  | tail _ hd ih => exact hsuper ih hd

theorem raw_of_reachable (hs : s.Preserves P) {starts : List ClassId} {c : ClassId}
    (hstarts : ∀ d ∈ starts, P (.raw d)) (h : c ∈ s.reachable starts) : P (.raw c) := by
  obtain ⟨d, hd, hreach⟩ := mem_reachable h
  have hraw : P (.raw d) := by
    rcases hd with hd | rfl
    · exact hstarts d hd
    · exact hs.object
  rcases hreach with rfl | hanc
  · exact hraw
  · exact hs.raw_of_ancestor hraw hanc

/-! ### Boxing and bounds -/

theorem box (hs : s.Preserves P) (ht : P t) (h : s.box? t = some u) : P u := by
  cases t with
  | prim p => exact hs.boxed h
  | _ =>
    cases h
    exact ht

theorem wildcardUpper (hs : s.Preserves P) {w : Wildcard} (ht : P t)
    (hw : t.openWildcard? = some w) : P (s.wildcardUpper w) := by
  obtain ⟨k, b⟩ := w
  cases k with
  | lower => exact hs.object
  | upper =>
    cases b with
    | none => exact hs.object
    | some b => exact hs.bound ht hw rfl

theorem upperBound (hs : s.Preserves P) (ht : P t) : P (s.upperBound t) := by
  cases t with
  | wild k b => exact hs.wildcardUpper ht rfl
  | captured i k b => exact hs.wildcardUpper ht rfl
  | param p =>
    have hbounds := hs.bounds ht
    cases hp : s.bounds p with
    | nil =>
      rw [upperBound_of_nil hp]
      exact hs.object
    | cons b bs =>
      rw [hp] at hbounds
      cases bs with
      | nil =>
        rw [upperBound_of_single hp]
        exact hbounds b List.mem_cons_self
      | cons b' bs =>
        rw [upperBound_of_several hp]
        exact hs.inter.2 hbounds
  | _ => exact ht

/-! ### Erasure -/

theorem primaryBound (hs : s.Preserves P) {p : ParamId} (hp : P (.param p))
    (h : s.primaryBound? p = some t) : P t :=
  hs.bounds hp t (List.mem_of_mem_head? h)

theorem boundedBy (hs : s.Preserves P) {n : Nat} {p : ParamId} (hp : P (.param p))
    (h : s.boundedBy? n p = some t) : P t := by
  induction n generalizing p with
  | zero => cases h
  | succ n ih =>
    rw [boundedBy?] at h
    split at h
    · rename_i q hq
      exact ih (hs.primaryBound hp hq) h
    · rename_i c args hc
      cases h
      exact hs.primaryBound hp hc
    · rename_i u hu
      cases h
      exact hs.primaryBound hp hu
    · cases h

theorem erasureWithin (hs : s.Preserves P) {n : Nat} (ht : P t)
    (h : s.erasureWithin n t = some u) : P u := by
  fun_induction Store.erasureWithin s n t generalizing u with
  | case1 => cases h
  | case3 n t ih =>
    obtain ⟨v, hv, rfl⟩ := Option.map_eq_some_iff.1 h
    exact hs.array.2 (ih (hs.array.1 ht) hv)
  | case4 n c args =>
    cases h
    exact hs.raw ht
  | case5 n p b hb ih => exact ih (hs.boundedBy ht hb) h
  | case6 n p hb =>
    cases h
    exact hs.object
  | case7 n k b ih => exact ih (hs.wildcardUpper ht rfl) h
  | case8 n i k b ih => exact ih (hs.wildcardUpper ht rfl) h
  | case9 n =>
    cases h
    exact hs.object
  | case10 n t ts ih => exact ih (hs.inter.1 ht t List.mem_cons_self) h
  | _ =>
    cases h
    exact ht

theorem erasure (hs : s.Preserves P) (ht : P t) : P (s.erasure t) := by
  unfold Store.erasure
  cases h : s.erasureWithin (s.erasureBudget t) t with
  | none => exact hs.object
  | some u => exact hs.erasureWithin ht h

end Preserves

end GenericCalls.Store
