import GenericCalls.Proofs.Ty.Substitution
import GenericCalls.Session.Basic

/-! # Properties that types share with their parts

A property such as that a type mentions none of some parameters, or that all it mentions is
declared, passes from a type to its parts and back. Of a class type it passes back only if there are
as many arguments as before, or none. Substitution and capture keep such a property. -/

namespace GenericCalls

namespace Ty

/-- A property of types that passes between a type and its parts. -/
structure Hereditary (P : Ty → Prop) : Prop where
  array : ∀ {t}, P (.array t) ↔ P t
  inter : ∀ {ts}, P (.inter ts) ↔ ∀ t ∈ ts, P t
  unbounded : ∀ k, P (.wild k none)
  wild : ∀ {k t}, P (.wild k (some t)) ↔ P t
  captured : ∀ {i k b}, P (.captured i k b) ↔ P (.wild k b)
  args : ∀ {c ts}, P (.cls c ts) → ∀ t ∈ ts, P t
  refill : ∀ {c ts us}, P (.cls c ts) → us.length = ts.length → (∀ u ∈ us, P u) → P (.cls c us)
  raw : ∀ {c ts}, P (.cls c ts) → P (.raw c)

namespace Hereditary

variable {P : Ty → Prop} {t u : Ty} {k : WildcardKind}

/-! ### Parts -/

theorem bound (hP : Hereditary P) {w : Wildcard} {b : Ty} (ht : P t) (hw : t.openWildcard? = some w)
    (hb : w.bound = some b) : P b := by
  cases t with
  | wild k bound =>
    cases hw
    cases hb
    exact hP.wild.1 ht
  | captured i k bound =>
    cases hw
    cases hb
    exact hP.wild.1 (hP.captured.1 ht)
  | _ => cases hw

theorem reopen (hP : Hereditary P) (ht : P t) : P t.reopen := by
  cases t with
  | captured i k b => exact hP.captured.1 ht
  | _ => exact ht

/-! ### Substitution -/

theorem rewrap (hP : Hereditary P) {b : Option Ty} (h : ∀ t, b = some t → P t) :
    P (Substitution.rewrap k b) := by
  cases b with
  | none => exact hP.unbounded .upper
  | some t =>
    have ht := h t rfl
    cases t with
    | wild inner b =>
      rw [Substitution.rewrap]
      split
      · exact ht
      · exact hP.unbounded .upper
    | _ => exact hP.wild.2 ht

theorem apply (hP : Hereditary P) {f : ParamId → Option Binding}
    (hf : ∀ p t, f p = some (.bound t) → P t) (t : Ty) :
    ∀ u, P t → Substitution.apply f t = some u → P u := by
  have hall {ts us : List Ty} (ih : ∀ t ∈ ts, ∀ u, P t → Substitution.apply f t = some u → P u)
      (hts : ∀ t ∈ ts, P t) (h : Substitution.applyAll f ts = some us) : ∀ u ∈ us, P u := by
    intro u hu
    obtain ⟨t, ht, happly⟩ :=
      exists_mem_of_forall₂ (Substitution.applyAll_eq_some_iff.1 h).flip hu
    exact ih t ht u (hts t ht) happly
  induction t using Ty.induct with
  | array t ih =>
    intro u ht h
    obtain ⟨v, hv, rfl⟩ := Option.map_eq_some_iff.1 h
    exact hP.array.2 (ih v (hP.array.1 ht) hv)
  | cls c args ih =>
    intro u ht h
    cases h
    cases hus : Substitution.applyAll f args with
    | none => exact hP.raw ht
    | some us =>
      exact hP.refill ht (Substitution.length_applyAll hus) (hall ih (hP.args ht) hus)
  | param q =>
    intro u ht h
    rw [Substitution.apply] at h
    split at h
    · rename_i v hv
      cases h
      exact hf q _ hv
    · cases h
    · cases h
      exact ht
  | wildOpen k =>
    intro u _ h
    cases h
    exact hP.unbounded .upper
  | wild k b ih =>
    intro u ht h
    cases h
    exact hP.rewrap fun v hv => ih v (hP.wild.1 ht) hv
  | inter ts ih =>
    intro u ht h
    obtain ⟨us, hus, rfl⟩ := Option.map_eq_some_iff.1 h
    exact hP.inter.2 (hall ih (hP.inter.1 ht) hus)
  | _ =>
    intro u ht h
    cases h
    exact ht

theorem substitute (hP : Hereditary P) {σ : Substitution}
    (hσ : ∀ p t, σ.get? p = some (.bound t) → P t) (ht : P t) (h : σ.substitute t = some u) :
    P u := by
  unfold Substitution.substitute at h
  split at h
  · cases h
    exact ht
  · exact hP.apply hσ t u ht h

theorem substituteClass (hP : Hereditary P) {σ : Substitution}
    (hσ : ∀ p t, σ.get? p = some (.bound t) → P t) {c : ClassTy} (hc : P c.toTy) :
    P ((σ.substituteClass c).getD (.raw c.id)).toTy :=
  hP.substitute hσ hc (σ.substitute_cls c)

/-! ### Capture -/

theorem captureArgs (hP : Hereditary P) {ts : List Ty} (h : ∀ t ∈ ts, P t) (s : Session) :
    (s.captureArgs ts).1.length = ts.length ∧ ∀ t ∈ (s.captureArgs ts).1, P t := by
  induction ts generalizing s with
  | nil => exact ⟨rfl, nofun⟩
  | cons t ts ih =>
    obtain ⟨ht, hts⟩ := List.forall_mem_cons.1 h
    cases t with
    | wild k b =>
      obtain ⟨hlength, hall⟩ := ih hts s.freshCapture.2
      exact ⟨congrArg Nat.succ hlength, List.forall_mem_cons.2 ⟨hP.captured.2 ht, hall⟩⟩
    | _ =>
      obtain ⟨hlength, hall⟩ := ih hts s
      exact ⟨congrArg Nat.succ hlength, List.forall_mem_cons.2 ⟨ht, hall⟩⟩

theorem capture (hP : Hereditary P) (ht : P t) (s : Session) : P (s.capture t).1 := by
  cases t with
  | cls c args =>
    obtain ⟨hlength, hargs⟩ := hP.captureArgs (hP.args ht) s
    exact hP.refill ht hlength hargs
  | _ => exact ht

end Hereditary

end Ty

end GenericCalls
