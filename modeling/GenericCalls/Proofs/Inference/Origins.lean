import GenericCalls.Proofs.Inference.Answers
import GenericCalls.Proofs.Inference.Contexts
import GenericCalls.Proofs.Store.KeepsOut

/-! # Answers from declared bounds

A type parameter may get its answer from its own declared bounds: as they are, or where they narrow
a guess. Such an answer mentions what the bounds mention, the parameter itself aside, which is
replaced in them. -/

namespace GenericCalls

open Ty Store

variable {ps : List ParamId} {s : Store} {t : Ty}

/-- No argument of a request has a type that mentions one of the parameters `ps`. -/
def Request.ArgsAvoid (ps : List ParamId) (r : Request) : Prop :=
  ∀ a ∈ r.args, ∀ t ∈ a.ty, t.Avoids ps

namespace Engine

variable {e : Engine} {r : Request} {p q : ParamId}

theorem mentions_of_substitute {σ : Substitution} {t u : Ty}
    (hσ : ∀ q t, σ.get? q = some (.bound t) → t.mentions p = false) (h : σ.substitute t = some u)
    (hu : u.mentions p = true) :
    t.mentions p = true ∧ (σ.get? p = none ∨ t.frozen p = true) := by
  unfold Substitution.substitute at h
  split at h
  · rename_i hempty
    cases h
    exact ⟨hu, .inl (Substitution.get?_of_isEmpty hempty p)⟩
  · exact Substitution.mentions_of_apply hσ t u h hu

/-- A declared bound of the parameter `q` mentions the parameter `p`: another one, unless it does so
in a captured wildcard. -/
def BoundMentions (s : Store) (q p : ParamId) : Prop :=
  ∃ b ∈ s.bounds q, b.mentions p = true ∧ (p ≠ q ∨ b.frozen p = true)

/-- The declared bounds of a parameter give it the type `t`: as the answer where no expected type
gives one, or by narrowing a guess that mentions no parameter of the request. -/
def AnsweredByBounds (e : Engine) (r : Request) (q : ParamId) (t : Ty) : Prop :=
  t = (e.fromBound q r).ty ∨
    r.method.returns.isParam q = true ∧ ∃ guess : Ty, guess.Avoids r.typeParams ∧
      t = narrow e.store r.given q guess (e.store.bounds q)

/-- A bound in which the parameter itself is replaced mentions what it mentioned before. -/
theorem boundMentions_of_substitute {b u : Ty} {binding : Binding}
    (hgiven : ∀ q t, r.given.get? q = some (.bound t) → t.mentions p = false)
    (hbinding : ∀ t, binding = .bound t → t.mentions p = false) (hb : b ∈ s.bounds q)
    (h : (r.given.put q binding).substitute b = some u) (hu : u.mentions p = true) :
    BoundMentions s q p := by
  have hput : ∀ q' t, (r.given.put q binding).get? q' = some (.bound t) →
      t.mentions p = false := by
    intro q' t ht
    rw [Substitution.get?_put] at ht
    split at ht
    · exact hbinding t (Option.some.inj ht)
    · exact hgiven q' t ht
  obtain ⟨hmention, hkept⟩ := mentions_of_substitute hput h hu
  refine ⟨b, hb, hmention, hkept.imp_left fun hnone heq => ?_⟩
  rw [heq, Substitution.get?_put, if_pos rfl] at hnone
  cases hnone

theorem boundMentions_of_narrow (hgiven : ∀ q t, r.given.get? q = some (.bound t) →
      t.mentions p = false) {guess : Ty} {bs : List Ty} (hguess : guess.mentions p = false)
    (hbs : ∀ b ∈ bs, b ∈ s.bounds q) (h : (narrow s r.given q guess bs).mentions p = true) :
    BoundMentions s q p := by
  induction bs generalizing guess with
  | nil =>
    rw [narrow, hguess] at h
    cases h
  | cons b bs ih =>
    obtain ⟨hb, hbs⟩ := List.forall_mem_cons.1 hbs
    have hself : guess.mentions p = true → BoundMentions s q p := by
      intro hmention
      rw [hguess] at hmention
      cases hmention
    rw [narrow] at h
    split at h
    · exact hself h
    · rename_i u hu
      split at h
      · exact ih hguess hbs h
      · split at h
        · -- The bound is the next guess, unless it mentions the parameter.
          cases hmention : u.mentions p with
          | false => exact ih hmention hbs h
          | true =>
            refine boundMentions_of_substitute hgiven (fun t ht => ?_) hb hu hmention
            cases ht
            exact hguess
        · exact hself h

/-- What declared bounds give mentions a parameter of the request only if a bound does. -/
theorem AnsweredByBounds.boundMentions (hgiven : r.given.Avoids r.typeParams)
    (h : e.AnsweredByBounds r q t) (hp : p ∈ r.typeParams) (ht : t.mentions p = true) :
    BoundMentions e.store q p := by
  have hgiven : ∀ q t, r.given.get? q = some (.bound t) → t.mentions p = false :=
    fun q t hq => hgiven q t hq p hp
  rcases h with rfl | ⟨_, guess, hguess, rfl⟩
  · have hbound : (((e.store.primaryBound? q).bind (r.given.put q .erased).substitute).getD
        e.store.object).mentions p = true := by
      unfold fromBound at ht
      dsimp only at ht
      split at ht <;> exact ht
    cases hprimary : (e.store.primaryBound? q).bind (r.given.put q .erased).substitute with
    | none =>
      rw [hprimary] at hbound
      cases hbound
    | some u =>
      rw [hprimary] at hbound
      obtain ⟨b, hb, hu⟩ := Option.bind_eq_some_iff.1 hprimary
      have hmem : b ∈ e.store.bounds q := List.mem_of_mem_head? hb
      exact boundMentions_of_substitute hgiven (fun t ht => by cases ht) hmem hu hbound
  · exact boundMentions_of_narrow hgiven (hguess p hp) (fun b hb => hb) ht

end Engine

end GenericCalls
