import GenericCalls.Proofs.Assignable.Rules
import GenericCalls.Proofs.Store.Regular

/-! # How deep a source is nested

A check of assignability takes the source apart: an array into its component, a wildcard into its
upper bound, an intersection into its components, and a type parameter into its declared bounds.
Where no parameter is bounded by itself, every type is taken apart in finitely many steps. -/

namespace GenericCalls.Store

open Ty

variable {s : Store} {t u : Ty} {n : Nat}

def parts (s : Store) : Ty → List Ty
  | .array t => [t]
  | .wild k b => [s.wildcardUpper ⟨k, b⟩]
  | .captured _ k b => [s.wildcardUpper ⟨k, b⟩]
  | .inter ts => ts
  | .param p => s.bounds p
  | _ => []

/-- Whether a type, with the declared bounds that it leads to, is nested at most so deep. -/
def nestedWithin (s : Store) : Nat → Ty → Bool
  | 0, _ => false
  | n + 1, t => (s.parts t).all (s.nestedWithin n)

theorem nestedWithin_succ_iff :
    s.nestedWithin (n + 1) t = true ↔ ∀ u ∈ s.parts t, s.nestedWithin n u = true :=
  List.all_eq_true

theorem nestedWithin_of_parts (ht : s.nestedWithin (n + 1) t = true) (hu : u ∈ s.parts t) :
    s.nestedWithin n u = true :=
  nestedWithin_succ_iff.1 ht u hu

theorem nestedWithin_mono {m n : Nat} (h : s.nestedWithin m t = true) (hmn : m ≤ n) :
    s.nestedWithin n t = true := by
  induction m generalizing n t with
  | zero => cases h
  | succ m ih =>
    obtain ⟨n, rfl⟩ : ∃ k, n = k + 1 := ⟨n - 1, by omega⟩
    exact nestedWithin_succ_iff.2 fun u hu =>
      ih (nestedWithin_of_parts h hu) (Nat.le_of_succ_le_succ hmn)

theorem exists_nestedWithin_of_parts (h : ∀ u ∈ s.parts t, ∃ n, s.nestedWithin n u = true) :
    ∃ n, s.nestedWithin n t = true := by
  obtain ⟨n, hn⟩ := exists_budget (R := fun n u => s.nestedWithin n u = true) (s.parts t)
    (fun _ _ _ => nestedWithin_mono) h
  exact ⟨n + 1, nestedWithin_succ_iff.2 hn⟩

theorem exists_nestedWithin_object (s : Store) : ∃ n, s.nestedWithin n s.object = true :=
  ⟨1, rfl⟩

theorem exists_nestedWithin_of_bounds (t : Ty)
    (h : ∀ p ∈ t.exposed, ∀ b ∈ s.bounds p, ∃ n, s.nestedWithin n b = true) :
    ∃ n, s.nestedWithin n t = true := by
  have hone {t u : Ty} (hparts : s.parts t = [u]) (hu : ∃ n, s.nestedWithin n u = true) :
      ∃ n, s.nestedWithin n t = true :=
    exists_nestedWithin_of_parts fun v hv => by
      rw [hparts] at hv
      exact List.mem_singleton.1 hv ▸ hu
  induction t using Ty.induct with
  | array t ih => exact hone rfl (ih h)
  | param p => exact exists_nestedWithin_of_parts (h p List.mem_cons_self)
  | wildOpen k => cases k <;> exact hone rfl s.exists_nestedWithin_object
  | wild k b ih =>
    cases k with
    | upper => exact hone rfl (ih h)
    | lower => exact hone rfl s.exists_nestedWithin_object
  | capturedOpen i k => cases k <;> exact hone rfl s.exists_nestedWithin_object
  | captured i k b ih =>
    cases k with
    | upper => exact hone rfl (ih h)
    | lower => exact hone rfl s.exists_nestedWithin_object
  | inter ts ih =>
    exact exists_nestedWithin_of_parts fun t ht =>
      ih t ht fun p hp => h p (mem_exposedAll ht hp)
  | _ => exact ⟨1, rfl⟩

theorem exists_nestedWithin (hacyclic : ∀ p, ¬Relation.TransGen s.BoundBy p p) (t : Ty) :
    ∃ n, s.nestedWithin n t = true := by
  have hbounds (p : ParamId) : ∀ b ∈ s.bounds p, ∃ n, s.nestedWithin n b = true := by
    induction p using (wellFounded_of_acyclic hacyclic).induction with
    | _ p ih =>
      intro b hb
      exact exists_nestedWithin_of_bounds b fun q hq => ih q ⟨b, hb, hq⟩
  exact exists_nestedWithin_of_bounds t fun p _ => hbounds p

end GenericCalls.Store
