import GenericCalls.Proofs.Ty.Substitution

/-! # Substitutions one after another

What one substitution and then another make of a type, a single one makes of it: it binds what the
first binds to what the second makes of that, and what only the second binds as the second does.
Erasure stops at classes and wildcards, so it matters there that a wildcard around what has been
erased is the same `?` as one around a wildcard of the other side, which no substitution changes. -/

namespace GenericCalls

namespace Binding

/-- What a binding becomes when `f` is applied to its type; it is erased when the type is. -/
def under (f : Ty → Option Ty) : Binding → Binding
  | bound t =>
    match f t with
    | some u => .bound u
    | none => .erased
  | erased => .erased

@[simp] theorem under_some (b : Binding) : b.under some = b := by
  cases b <;> rfl

end Binding

namespace Substitution

variable {f g : ParamId → Option Binding} {p : ParamId}

/-! ### Lists of types -/

theorem applyAll_cons (t : Ty) (ts : List Ty) :
    applyAll f (t :: ts) = (apply f t).bind fun u => (applyAll f ts).map (u :: ·) := by
  rw [applyAll]
  cases apply f t with
  | none => rfl
  | some u => cases applyAll f ts <;> rfl

theorem applyAll_eq_mapM (ts : List Ty) : applyAll f ts = ts.mapM (apply f) := by
  induction ts with
  | nil => rfl
  | cons t ts ih =>
    rw [applyAll_cons, List.mapM_cons, ih]
    cases apply f t with
    | none => rfl
    | some u => cases ts.mapM (apply f) <;> rfl

theorem applyAll_congr {ts : List Ty} (h : ∀ t ∈ ts, apply f t = apply g t) :
    applyAll f ts = applyAll g ts := by
  induction ts with
  | nil => rfl
  | cons t ts ih =>
    obtain ⟨ht, hts⟩ := List.forall_mem_cons.1 h
    rw [applyAll_cons, applyAll_cons, ht, ih hts]

theorem apply_congr (t : Ty) (h : ∀ p, t.mentions p = true → f p = g p) :
    apply f t = apply g t := by
  have hall {ts : List Ty}
      (ih : ∀ t ∈ ts, (∀ p, t.mentions p = true → f p = g p) → apply f t = apply g t)
      (h : ∀ p, Ty.mentionsAny p ts = true → f p = g p) : applyAll f ts = applyAll g ts := by
    refine applyAll_congr fun t ht => ih t ht fun p hp => h p ?_
    rw [Ty.mentionsAny_eq_any]
    exact List.any_eq_true.2 ⟨t, ht, hp⟩
  induction t using Ty.induct with
  | array t ih => rw [apply, apply, ih h]
  | cls c args ih => rw [apply, apply, hall ih h]
  | param p => rw [apply, apply, h p (beq_self_eq_true p)]
  | wild k b ih => rw [apply, apply, ih h]
  | inter ts ih => rw [apply, apply, hall ih h]
  | _ => rfl

/-! ### Wildcards around wildcards -/

theorem rewrap_cases (k : WildcardKind) (b : Option Ty) :
    rewrap k b = Ty.anything ∨ ∃ c, rewrap k b = .wild k c := by
  cases b with
  | none => exact .inl rfl
  | some t =>
    cases t with
    | wild l c =>
      by_cases hl : l = k
      · exact .inr ⟨c, by rw [rewrap, if_pos hl, hl]⟩
      · exact .inl (if_neg hl)
    | _ => exact .inr ⟨_, rfl⟩

theorem rewrap_anything (k : WildcardKind) : rewrap k (some Ty.anything) = Ty.anything :=
  ite_self _

/-- One wildcard collapses into another of its side, and not at all into one of the other side. -/
theorem rewrap_rewrap (k l : WildcardKind) (b : Option Ty) :
    rewrap k (some (rewrap l b)) = if l = k then rewrap l b else Ty.anything := by
  rcases rewrap_cases l b with h | ⟨c, h⟩
  · rw [h, rewrap_anything, ite_self]
  · rw [h, rewrap]

theorem apply_rewrap (k : WildcardKind) (b : Option Ty) :
    apply g (rewrap k b) = some (rewrap k (b.bind (apply g))) := by
  cases b with
  | none => rfl
  | some t =>
    cases t with
    | wild l c =>
      have hinner : apply g (.wild l c) = some (rewrap l (c.bind (apply g))) := by
        cases c <;> rfl
      rw [rewrap, Option.bind_some, hinner, rewrap_rewrap]
      split
      · exact hinner
      · rfl
    | _ => rfl

/-! ### Composition -/

/-- The bindings of `f` with `g` applied to their types, and those of `g` for all other
parameters. -/
def chain (f g : ParamId → Option Binding) (p : ParamId) : Option Binding :=
  match f p with
  | some b => some (b.under (apply g))
  | none => g p

theorem applyAll_chain {ts : List Ty}
    (h : ∀ t ∈ ts, apply (chain f g) t = (apply f t).bind (apply g)) :
    applyAll (chain f g) ts = (applyAll f ts).bind (applyAll g) := by
  induction ts with
  | nil => rfl
  | cons t ts ih =>
    obtain ⟨ht, hts⟩ := List.forall_mem_cons.1 h
    rw [applyAll_cons, applyAll_cons, ht, ih hts]
    cases apply f t with
    | none => rfl
    | some u =>
      cases applyAll f ts with
      | none =>
        rw [Option.bind_some]
        cases apply g u <;> rfl
      | some us => exact (applyAll_cons u us).symm

/-- Applying one substitution and then another is applying their composition. -/
theorem apply_chain (t : Ty) : apply (chain f g) t = (apply f t).bind (apply g) := by
  induction t using Ty.induct with
  | array t ih =>
    rw [apply, apply, ih, Option.map_bind, Option.bind_map]
    rfl
  | cls c args ih =>
    rw [apply, apply, applyAll_chain ih]
    -- A class type with an erased argument is raw, and stays so.
    cases applyAll f args <;> rfl
  | param p =>
    rw [apply, apply, chain]
    cases hf : f p with
    | none => rfl
    | some b =>
      cases b with
      | erased => rfl
      | bound t =>
        dsimp only [Binding.under, Option.bind_some]
        cases apply g t <;> rfl
  | wild k b ih => rw [apply, apply, ih, Option.bind_some, apply_rewrap]
  | inter ts ih =>
    rw [apply, apply, applyAll_chain ih, Option.map_bind, Option.bind_map]
    rfl
  | _ => rfl

/-! ### Composed substitutions -/

theorem isEmpty_iff {σ : Substitution} : σ.isEmpty = true ↔ ∀ p, σ.get? p = none := by
  obtain ⟨⟨entries, distinct⟩⟩ := σ
  cases entries with
  | nil => exact iff_of_true rfl fun _ => rfl
  | cons e rest =>
    refine iff_of_false Bool.false_ne_true fun h => ?_
    have hfirst := h e.1
    simp [get?, KeyedList.get?, KeyedList.lookup] at hfirst

theorem substitute_of_isEmpty {σ : Substitution} (h : σ.isEmpty = true) : σ.substitute = some :=
  funext fun _ => if_pos h

theorem substitute_of_not_isEmpty {σ : Substitution} (h : ¬σ.isEmpty = true) :
    σ.substitute = apply σ.get? :=
  funext fun _ => if_neg h

theorem substitute_congr {σ τ : Substitution} (h : ∀ p, σ.get? p = τ.get? p) :
    σ.substitute = τ.substitute := by
  have hget : σ.get? = τ.get? := funext h
  have hempty : σ.isEmpty = true ↔ τ.isEmpty = true := by rw [isEmpty_iff, isEmpty_iff, hget]
  by_cases hσ : σ.isEmpty = true
  · rw [substitute_of_isEmpty hσ, substitute_of_isEmpty (hempty.1 hσ)]
  · rw [substitute_of_not_isEmpty hσ, substitute_of_not_isEmpty (mt hempty.2 hσ), hget]

theorem substituteClass_eq_mapM (σ : Substitution) (c : ClassTy) :
    σ.substituteClass c = (c.args.mapM σ.substitute).map (⟨c.id, ·⟩) := by
  unfold substituteClass
  split
  · rename_i hempty
    have hself : c.args.mapM some = some c.args := by
      show c.args.mapM (fun t => pure (id t)) = some c.args
      rw [List.mapM_pure, List.map_id]
      rfl
    rw [substitute_of_isEmpty hempty, hself]
    rfl
  · rename_i hempty
    rw [substitute_of_not_isEmpty hempty, applyAll_eq_mapM]

/-- To what one substitution and then another bind a parameter. -/
def bindingAfter (σ τ : Substitution) (p : ParamId) : Option Binding :=
  match σ.get? p with
  | some b => some (b.under τ.substitute)
  | none => τ.get? p

/-- The substitution that acts like `σ` and then `τ`. -/
def andThen (σ τ : Substitution) : Substitution :=
  ⟨τ.bindings.putAll (σ.toList.map fun e => (e.1, e.2.under τ.substitute))⟩

theorem get?_andThen (σ τ : Substitution) (p : ParamId) :
    (σ.andThen τ).get? p = bindingAfter σ τ p := by
  have hkeys : ((σ.toList.map fun e => (e.1, e.2.under τ.substitute)).map Prod.fst).Nodup := by
    rw [List.map_map]
    exact σ.bindings.distinct
  calc (σ.andThen τ).get? p
      = ((σ.get? p).map (Binding.under τ.substitute)).or (τ.get? p) := by
        refine (KeyedList.get?_putAll τ.bindings hkeys p).trans ?_
        rw [KeyedList.lookup_map]
        rfl
    _ = bindingAfter σ τ p := by
        unfold bindingAfter
        cases σ.get? p <;> rfl

theorem substitute_andThen (σ τ : Substitution) (t : Ty) :
    (σ.andThen τ).substitute t = (σ.substitute t).bind τ.substitute := by
  have hget := get?_andThen σ τ
  by_cases hσ : σ.isEmpty = true
  · -- Without bindings of `σ` there are only those of `τ`.
    have hrest : ∀ p, (σ.andThen τ).get? p = τ.get? p := fun p => by
      rw [hget, bindingAfter, isEmpty_iff.1 hσ]
    rw [substitute_congr hrest, substitute_of_isEmpty hσ]
    rfl
  by_cases hτ : τ.isEmpty = true
  · -- Without bindings of `τ` those of `σ` are left as they are, also `? super` without a bound.
    have hrest : ∀ p, (σ.andThen τ).get? p = σ.get? p := fun p => by
      rw [hget, bindingAfter, substitute_of_isEmpty hτ, isEmpty_iff.1 hτ]
      cases σ.get? p with
      | none => rfl
      | some b => exact congrArg some b.under_some
    rw [substitute_congr hrest, substitute_of_isEmpty hτ, Option.bind_fun_some]
  have hchain : (σ.andThen τ).get? = chain σ.get? τ.get? := funext fun p => by
    rw [hget, bindingAfter, substitute_of_not_isEmpty hτ]
    rfl
  have hne : ¬(σ.andThen τ).isEmpty = true := by
    refine fun hempty => hσ (isEmpty_iff.2 fun p => ?_)
    have hp := isEmpty_iff.1 hempty p
    rw [hget, bindingAfter] at hp
    cases hσp : σ.get? p with
    | none => rfl
    | some b =>
      rw [hσp] at hp
      cases hp
  rw [substitute_of_not_isEmpty hne, substitute_of_not_isEmpty hσ, substitute_of_not_isEmpty hτ,
    hchain, apply_chain]

/-- Substitutions compose. A substitution that binds every parameter of `σ` to what `τ` makes of its
type, erased where `τ` leaves nothing of it, and all other parameters as `τ` does, makes of every
type what `τ` makes of what `σ` makes of it; and there is such a substitution. -/
theorem substitute_composed (σ τ : Substitution) :
    (∀ p, (σ.andThen τ).get? p = bindingAfter σ τ p) ∧
      ∀ ρ : Substitution, (∀ p, ρ.get? p = bindingAfter σ τ p) →
        ∀ t, ρ.substitute t = (σ.substitute t).bind τ.substitute := by
  refine ⟨get?_andThen σ τ, fun ρ hρ t => ?_⟩
  rw [substitute_congr fun p => (hρ p).trans (get?_andThen σ τ p).symm, substitute_andThen]

/-- A lower bound collapses into the one around it, an erased argument makes its class raw, and a
parameter that only the second substitution binds is bound by it. -/
theorem substitute_composed_collapsing :
    let σ := ofList [(1, .bound (.above (.param 3))), (2, .erased)]
    let τ := ofList [(3, .bound (.above (.raw 4))), (1, .erased)]
    let ρ := ofList [(3, .bound (.above (.raw 4))), (2, .erased), (1, .bound (.above (.raw 4)))]
    let t : Ty := .inter [.cls 13 [.above (.param 1)], .cls 15 [.param 2, .param 3], .param 3]
    (∀ p, ρ.get? p = bindingAfter σ τ p) ∧
      ρ.substitute t = (σ.substitute t).bind τ.substitute ∧
      ρ.substitute t = some (.inter [.cls 13 [.above (.raw 4)], .raw 15, .above (.raw 4)]) := by
  intro σ τ ρ t
  have hρ : ∀ p, ρ.get? p = bindingAfter σ τ p
    | 0 | 1 | 2 | 3 => rfl
    | _ + 4 => rfl
  exact ⟨hρ, (substitute_composed σ τ).2 ρ hρ t, rfl⟩

end Substitution

end GenericCalls
