import GenericCalls.Proofs.Store.Ownership
import GenericCalls.Proofs.Store.Preserves

/-! # Well-formed types

A type is well formed in a store that declares all classes and type parameters in it. Its classes
have no type arguments, where they are raw or not generic, or as many as they have type parameters.
If a store declares only well-formed types, then no type that is read off it for well-formed types
is ill-formed. -/

namespace GenericCalls

def Decl.types : Decl → List Ty
  | .cls d => d.supertypes.map ClassTy.toTy
  | .param d => d.bounds
  | .method d => d.returns :: d.formals.map Formal.ty

namespace Store

open Ty

/-! ### Types -/

mutual
/-- Whether all classes and type parameters in a type are declared, all classes have fitting type
arguments, and no part of the type is unknown. -/
def wellFormed (s : Store) : Ty → Bool
  | .prim _ => true
  | .array t => wellFormed s t
  | .cls c args =>
    (s.class? c).any (fun d => args.isEmpty || args.length == d.params.length) &&
      allWellFormed s args
  | .param p => (s.param? p).isSome
  | .wild _ none => true
  | .wild _ (some b) => wellFormed s b
  | .captured _ _ none => true
  | .captured _ _ (some b) => wellFormed s b
  | .inter ts => allWellFormed s ts
  | .null => true
  | .unknown => false
def allWellFormed (s : Store) : List Ty → Bool
  | [] => true
  | t :: ts => wellFormed s t && allWellFormed s ts
end

variable {s : Store} {t : Ty} {ts args : List Ty} {c : ClassId} {p : ParamId}

theorem allWellFormed_iff : s.allWellFormed ts = true ↔ ∀ t ∈ ts, s.wellFormed t = true := by
  induction ts with
  | nil => simp [allWellFormed]
  | cons t ts ih => rw [allWellFormed, Bool.and_eq_true, ih, List.forall_mem_cons]

theorem wellFormed_cls_iff : s.wellFormed (.cls c args) = true ↔
    (∃ d, s.class? c = some d ∧ (args = [] ∨ args.length = d.params.length)) ∧
      ∀ t ∈ args, s.wellFormed t = true := by
  rw [wellFormed, Bool.and_eq_true, Option.any_eq_true, allWellFormed_iff]
  simp

theorem wellFormed_raw_iff : s.wellFormed (.raw c) = true ↔ (s.class? c).isSome = true := by
  rw [raw, wellFormed_cls_iff, Option.isSome_iff_exists]
  simp

theorem hereditary_wellFormed (s : Store) : Hereditary (s.wellFormed ·) where
  array := by simp [wellFormed]
  inter := by simp [wellFormed, allWellFormed_iff]
  unbounded _ := by rw [wellFormed]
  wild := by simp [wellFormed]
  captured := by
    intro i k b
    cases b <;> simp [wellFormed]
  args h := (wellFormed_cls_iff.1 h).2
  refill := by
    intro c ts us h hlength hus
    obtain ⟨⟨d, hd, harity⟩, _⟩ := wellFormed_cls_iff.1 h
    refine wellFormed_cls_iff.2 ⟨⟨d, hd, ?_⟩, hus⟩
    rw [← List.length_eq_zero_iff] at harity ⊢
    rwa [hlength]
  raw h := by
    obtain ⟨⟨d, hd, _⟩, _⟩ := wellFormed_cls_iff.1 h
    exact wellFormed_raw_iff.2 (Option.isSome_iff_exists.2 ⟨d, hd⟩)

/-! ### Stores -/

/-- The classes that the language itself refers to are declared. -/
structure Rooted (s : Store) : Prop where
  root : (s.class? s.root).isSome = true
  wrapper : ∀ p c, s.wrapper p = some c → (s.class? c).isSome = true

/-- A store is well formed if all its declarations are written with well-formed types. -/
structure WellFormed (s : Store) : Prop extends Rooted s where
  types : ∀ i d, s.decl? i = some d → ∀ t ∈ d.types, s.wellFormed t = true

namespace WellFormed

theorem supertypes (hs : s.WellFormed) {d : ClassDecl} (hd : s.class? c = some d) :
    ∀ t ∈ d.supertypes, s.wellFormed t.toTy = true :=
  fun t ht => hs.types c (.cls d) (class?_eq_some_iff.1 hd) t.toTy (List.mem_map_of_mem ht)

theorem bounds (hs : s.WellFormed) (p : ParamId) : ∀ b ∈ s.bounds p, s.wellFormed b = true := by
  intro b hb
  unfold Store.bounds at hb
  cases hd : s.param? p with
  | none =>
    rw [hd] at hb
    cases hb
  | some d =>
    rw [hd] at hb
    exact hs.types p (.param d) (param?_eq_some_iff.1 hd) b hb

theorem preserves (hs : s.WellFormed) : s.Preserves (s.wellFormed ·) where
  toHereditary := hereditary_wellFormed s
  null := by rw [wellFormed]
  object := wellFormed_raw_iff.2 hs.root
  boxed := by
    intro p t ht
    obtain ⟨c, hc, rfl⟩ := Option.map_eq_some_iff.1 ht
    exact wellFormed_raw_iff.2 (hs.wrapper p c hc)
  supertypes :=
    directSupertypes_of_declared (hereditary_wellFormed s) fun _ hd => hs.supertypes hd
  bounds _ := hs.bounds _
  promoted _ p _ b hb := .inl (hs.bounds p b (List.mem_of_mem_head? hb))

end WellFormed

/-! ### Listed type parameters -/

theorem wellFormed_param_of_ownerOf? {o : ParamOwner} (h : s.ownerOf? p = some o) :
    s.wellFormed (.param p) = true := by
  obtain ⟨d, hd, howner⟩ := Option.bind_eq_some_iff.1 h
  cases d with
  | param d =>
    rw [wellFormed, param?, hd]
    rfl
  | _ => cases howner

theorem Owned.wellFormed_classParams (h : s.Owned) :
    ∀ p ∈ s.classParams c, s.wellFormed (.param p) = true :=
  fun _ hp => wellFormed_param_of_ownerOf? (h.ownerOf?_classParams hp)

theorem Owned.wellFormed_typeParams (h : s.Owned) {m : MethodId} {d : MethodDecl}
    (hd : s.method? m = some d) : ∀ p ∈ d.typeParams, s.wellFormed (.param p) = true :=
  fun _ hp => wellFormed_param_of_ownerOf? (h.ownerOf?_typeParams hd hp)

end Store

end GenericCalls
