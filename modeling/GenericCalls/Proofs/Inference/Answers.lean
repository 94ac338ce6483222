import GenericCalls.Inference.Answer
import GenericCalls.Proofs.Session.Balance
import GenericCalls.Proofs.Ty.Substitution

/-! # From verdicts to answers

A parameter on which the verdict is a type is bound to this type in the end, whatever becomes of its
siblings, unless the type mentions the parameter or all parameters are erased. What the substitution
makes of a class type that is applied to type parameters is read off parameter by parameter. -/

namespace GenericCalls

/-! ### Substituting for a list of parameters -/

namespace Substitution

/-- The type that a parameter stands for; itself, if it is erased or not bound. -/
def valueOf (σ : Substitution) (p : ParamId) : Ty :=
  match σ.get? p with
  | some (.bound t) => t
  | _ => .param p

def Gives (σ : Substitution) (p : ParamId) (t : Ty) : Prop :=
  σ.get? p = some .erased ∨ σ.get? p = some (.bound t)

theorem valueOf_of_get? {σ : Substitution} {p : ParamId} {t : Ty}
    (h : σ.get? p = some (.bound t)) : σ.valueOf p = t := by
  unfold valueOf
  rw [h]

theorem applyAll_params (σ : Substitution) (ps : List ParamId) :
    applyAll σ.get? (ps.map .param) = none ∨
      applyAll σ.get? (ps.map .param) = some (ps.map σ.valueOf) ∧
        ∀ p ∈ ps, σ.get? p ≠ some .erased := by
  induction ps with
  | nil => exact .inr ⟨rfl, fun _ hp => absurd hp List.not_mem_nil⟩
  | cons p ps ih =>
    rw [List.map_cons, List.map_cons, applyAll, apply, valueOf, List.forall_mem_cons]
    rcases ih with htail | ⟨htail, hps⟩
    · rw [htail]
      left
      split
      · rename_i h
        cases h
      · rfl
    · rw [htail]
      cases hp : σ.get? p with
      | none => exact .inr ⟨rfl, (fun herased => by cases herased), hps⟩
      | some b =>
        cases b with
        | bound t => exact .inr ⟨rfl, (fun herased => by cases herased), hps⟩
        | erased => exact .inl rfl

theorem get?_of_isEmpty {σ : Substitution} (h : σ.isEmpty = true) (p : ParamId) :
    σ.get? p = none := by
  have hentries : σ.bindings.entries = [] := List.isEmpty_iff.1 h
  unfold get? KeyedList.get?
  rw [hentries]
  rfl

/-- A class applied to parameters becomes raw, or is applied to what the parameters stand for if
none of them is erased. -/
theorem substitute_params (σ : Substitution) (c : ClassId) (ps : List ParamId) :
    ∃ args, σ.substitute (.cls c (ps.map .param)) = some (.cls c args) ∧
      (args = [] ∨ args = ps.map σ.valueOf ∧ ∀ p ∈ ps, σ.get? p ≠ some .erased) := by
  unfold substitute
  split
  · rename_i hempty
    have hnone := get?_of_isEmpty hempty
    have hself : ps.map .param = ps.map σ.valueOf :=
      List.map_congr_left fun p _ => by rw [valueOf, hnone p]
    exact ⟨_, rfl, .inr ⟨hself, fun p _ hp => nomatch (hnone p).symm.trans hp⟩⟩
  · rw [apply]
    rcases applyAll_params σ ps with hnone | ⟨hsome, hps⟩
    · exact ⟨[], by rw [hnone]; rfl, .inl rfl⟩
    · exact ⟨_, by rw [hsome]; rfl, .inr ⟨rfl, hps⟩⟩

end Substitution

namespace Engine
open Run

/-! ### Binding -/

/-- A parameter is bound to one of the types found for it, or all of these mention it and it keeps
its binding. -/
theorem get?_bindAll? {l : List (ParamId × Option Ty)} {given σ : Substitution}
    (h : bindAll? given l = some σ) (p : ParamId) :
    (σ.get? p = given.get? p ∧ ∀ t, (p, some t) ∈ l → t.mentions p = true) ∨
      ∃ t, (p, some t) ∈ l ∧ t.mentions p = false ∧ σ.get? p = some (.bound t) := by
  induction l generalizing given with
  | nil =>
    cases h
    exact .inl ⟨rfl, nofun⟩
  | cons e rest ih =>
    obtain ⟨q, t⟩ := e
    cases t with
    | none => cases h
    | some t =>
      rw [bindAll?] at h
      rcases ih h with ⟨hget, hall⟩ | ⟨u, hu, hmention, hget⟩
      · split at hget
        · rename_i hmention
          refine .inl ⟨hget, fun u hu => ?_⟩
          rcases List.mem_cons.1 hu with heq | hu
          · cases heq
            exact hmention
          · exact hall u hu
        · rename_i hmention
          by_cases hq : q = p
          · subst hq
            refine .inr ⟨t, List.mem_cons_self, by simpa using hmention, ?_⟩
            rw [hget, Substitution.putTy, Substitution.get?_put, if_pos rfl]
          · refine .inl ⟨?_, fun u hu => ?_⟩
            · rw [hget, Substitution.putTy, Substitution.get?_put, if_neg hq]
            · rcases List.mem_cons.1 hu with heq | hu
              · cases heq
                exact absurd rfl hq
              · exact hall u hu
      · exact .inr ⟨u, List.mem_cons_of_mem _ hu, hmention, hget⟩

/-! ### Reconciling -/

theorem getElem?_reconcileFrom {s : Store} {given : Substitution} {params : List ParamId}
    {todo : List (ParamId × Nat)} {known : List (Option Ty)} {i : Nat} {t : Ty}
    (h : known[i]? = some (some t)) :
    (s.reconcileFrom given params todo known)[i]? = some (some t) := by
  induction todo generalizing known with
  | nil => exact h
  | cons e rest ih =>
    obtain ⟨p, j⟩ := e
    rw [Store.reconcileFrom]
    split
    · rename_i hopen
      have hne : j ≠ i := by
        rintro rfl
        rw [h] at hopen
        cases hopen
      refine ih ?_
      rw [List.getElem?_set_ne hne]
      exact h
    · exact ih h

theorem ty?_of_exactTy? {w : Verdict} {t : Ty} (h : w.exactTy? = some t) : w.ty? = some t := by
  cases w with
  | resolved c =>
    rw [Verdict.exactTy?] at h
    split at h
    · cases h
    · exact h
  | _ => cases h

theorem ty?_of_upperTy? {w : Verdict} {t : Ty} (h : w.upperTy? = some t) : w.ty? = some t := by
  cases w with
  | resolved c =>
    rw [Verdict.upperTy?] at h
    split at h
    · exact h
    · cases h
  | _ => cases h

theorem getElem?_found {s : Store} {r : Request} {vs : List Verdict} {i : Nat} {v : Verdict}
    {t : Ty} (hv : vs[i]? = some v) (ht : v.exactTy? = some t) :
    (found s r vs)[i]? = some (some t) := by
  have hknown : (vs.map Verdict.exactTy?)[i]? = some (some t) := by
    rw [List.getElem?_map, hv, Option.map_some, ht]
  have hrest : (s.reconcile r.given r.typeParams (vs.map Verdict.exactTy?))[i]? = some (some t) :=
    getElem?_reconcileFrom hknown
  unfold found
  rw [List.getElem?_zipWith, hrest, hv]
  rfl

theorem mem_zip_iff {α β : Type} {l : List α} {l' : List β} {a : α} {b : β} :
    (a, b) ∈ l.zip l' ↔ ∃ i : Nat, l[i]? = some a ∧ l'[i]? = some b := by
  rw [List.mem_iff_getElem?]
  exact exists_congr fun _ => List.getElem?_zip_eq_some

theorem length_found (st : Store) (r : Request) (vs : List Verdict) :
    (found st r vs).length = vs.length := by
  unfold found Store.reconcile
  rw [List.length_zipWith, Store.length_reconcileFrom, List.length_map, Nat.min_self]

/-- What is found for a parameter is its exact answer or follows from siblings, or it is its upper
bound. -/
theorem reconcile_or_upperTy {r : Request} {st : Store} {vs : List Verdict} {i : Nat} {t : Ty}
    (h : (found st r vs)[i]? = some (some t)) :
    (st.reconcile r.given r.typeParams (vs.map Verdict.exactTy?))[i]? = some (some t) ∨
      ∃ w, vs[i]? = some w ∧ w.upperTy? = some t := by
  unfold found at h
  rw [List.getElem?_zipWith_eq_some] at h
  obtain ⟨o, w, ho, hw, hor⟩ := h
  rcases Option.or_eq_some_iff.1 hor with rfl | ⟨_, hupper⟩
  · exact .inl ho
  · exact .inr ⟨w, hw, hupper⟩

/-! ### Conclusions -/

theorem conclude_cases (st : Store) (r : Request) (vs : List Verdict) :
    conclude st r vs = r.given.eraseAll r.typeParams ∨
      (∀ w ∈ vs, w.isFatal = false) ∧
        bindAll? r.given (r.typeParams.zip (found st r vs)) = some (conclude st r vs) := by
  unfold conclude
  split
  · exact .inl rfl
  · rename_i hfatal
    rw [List.any_eq_true, not_exists] at hfatal
    cases hσ : bindAll? r.given (r.typeParams.zip (found st r vs)) with
    | none => exact .inl rfl
    | some σ => exact .inr ⟨fun w hw => by simpa [hw] using hfatal w, rfl⟩

theorem exists_none_of_bindAll? {l : List (ParamId × Option Ty)} {given : Substitution}
    (h : bindAll? given l = none) : ∃ q, (q, none) ∈ l := by
  induction l generalizing given with
  | nil => cases h
  | cons e rest ih =>
    obtain ⟨q, t⟩ := e
    cases t with
    | none => exact ⟨q, List.mem_cons_self⟩
    | some t =>
      obtain ⟨q', hq'⟩ := ih h
      exact ⟨q', List.mem_cons_of_mem _ hq'⟩

theorem isFatal_of_exactTy? {v : Verdict} {t : Ty} (h : v.exactTy? = some t) :
    v.isFatal = false := by
  cases v with
  | resolved c => rfl
  | _ => cases h

/-- A parameter on which every verdict gives one type, which does not mention it, is bound to this
type in the end, unless there are other parameters and all of them are erased. -/
theorem conclude_bound (s : Store) (r : Request) {vs : List Verdict}
    (hlength : vs.length = r.typeParams.length) {p : ParamId} (hp : p ∈ r.typeParams) {t : Ty}
    (hmention : t.mentions p = false)
    (hall : ∀ v, (p, v) ∈ r.typeParams.zip vs → v.exactTy? = some t) :
    (conclude s r vs).get? p = some (.bound t) ∨
      (∃ q ∈ r.typeParams, q ≠ p) ∧ (conclude s r vs).get? p = some .erased := by
  have herased : (r.given.eraseAll r.typeParams).get? p = some .erased := by
    rw [Substitution.get?_eraseAll, if_pos hp]
  have hverdict : ∀ i : Nat, r.typeParams[i]? = some p →
      ∃ v, vs[i]? = some v ∧ v.exactTy? = some t := by
    intro i hi
    obtain ⟨hlt, _⟩ := List.getElem?_eq_some_iff.1 hi
    have hv : vs[i]? = some vs[i] := List.getElem?_eq_getElem (hlength ▸ hlt)
    exact ⟨vs[i], hv, hall _ (mem_zip_iff.2 ⟨i, hi, hv⟩)⟩
  have hfound : ∀ i : Nat, r.typeParams[i]? = some p → (found s r vs)[i]? = some (some t) := by
    intro i hi
    obtain ⟨v, hv, ht⟩ := hverdict i hi
    exact getElem?_found hv ht
  unfold conclude
  split
  · rename_i hfatal
    obtain ⟨v, hv, hfatal⟩ := List.any_eq_true.1 hfatal
    obtain ⟨i, hi⟩ := List.mem_iff_getElem?.1 hv
    obtain ⟨hlt, _⟩ := List.getElem?_eq_some_iff.1 hi
    have hq : r.typeParams[i]? = some r.typeParams[i] := List.getElem?_eq_getElem (hlength ▸ hlt)
    refine .inr ⟨⟨_, List.mem_of_getElem? hq, fun heq => ?_⟩, herased⟩
    -- The fatal verdict is on another parameter: those on `p` give a type.
    rw [heq] at hq
    obtain ⟨v', hv', ht⟩ := hverdict i hq
    cases hi.symm.trans hv'
    rw [isFatal_of_exactTy? ht] at hfatal
    cases hfatal
  · cases hσ : bindAll? r.given (r.typeParams.zip (found s r vs)) with
    | none =>
      obtain ⟨q, hq⟩ := exists_none_of_bindAll? hσ
      refine .inr ⟨⟨q, (List.of_mem_zip hq).1, fun heq => ?_⟩, herased⟩
      subst heq
      obtain ⟨i, hi, hnone⟩ := mem_zip_iff.1 hq
      cases (hfound i hi).symm.trans hnone
    | some σ =>
      rcases get?_bindAll? hσ p with ⟨_, hmentions⟩ | ⟨u, hu, _, hget⟩
      · obtain ⟨i, hi⟩ := List.mem_iff_getElem?.1 hp
        have hself := hmentions t (mem_zip_iff.2 ⟨i, hi, hfound i hi⟩)
        rw [hmention] at hself
        cases hself
      · obtain ⟨i, hi, hui⟩ := mem_zip_iff.1 hu
        rw [hfound i hi] at hui
        cases hui
        exact .inl hget

/-- A parameter on which every verdict gives one type, which does not mention it, is bound to this
type in the end, or erased with all others. -/
theorem conclude_gives (s : Store) (r : Request) {vs : List Verdict}
    (hlength : vs.length = r.typeParams.length) {p : ParamId} (hp : p ∈ r.typeParams) {t : Ty}
    (hmention : t.mentions p = false)
    (hall : ∀ v, (p, v) ∈ r.typeParams.zip vs → v.exactTy? = some t) :
    (conclude s r vs).Gives p t :=
  (conclude_bound s r hlength hp hmention hall).elim .inr fun h => .inl h.2

/-! ### Judging -/

theorem run_judge_of_argumentVerdict {e : Engine} {rank : CallId → Run Ranked} {r : Request}
    {p : ParamId} {s : Session} {w : Verdict}
    (hw : r.argumentVerdict e.store s.guard.isBlocked p = .decided w) :
    (e.judge rank r p).run s = .ok (w, s) := by
  unfold judge
  rw [run_bind_of_ok (a := s) (t := s) rfl]
  simp only [hw]
  rfl

theorem run_judge_of_decided {e : Engine} {rank : CallId → Run Ranked} {r : Request} {p : ParamId}
    {s : Session} {w : Verdict}
    (hw : ∀ blocked, r.argumentVerdict e.store blocked p = .decided w) :
    (e.judge rank r p).run s = .ok (w, s) :=
  run_judge_of_argumentVerdict (hw s.guard.isBlocked)

theorem eq_of_judge {e : Engine} {rank : CallId → Run Ranked} {r : Request} {p : ParamId}
    {s t : Session} {v w : Verdict}
    (hw : ∀ blocked, r.argumentVerdict e.store blocked p = .decided w)
    (h : (e.judge rank r p).run s = .ok (v, t)) : v = w := by
  rw [run_judge_of_decided hw] at h
  cases h
  rfl

theorem forall₂_of_judgeAll {e : Engine} {rank : CallId → Run Ranked} {r : Request}
    {J : ParamId → Verdict → Prop}
    (hJ : ∀ p s v t, (e.judge rank r p).run s = .ok (v, t) → J p v) {ps : List ParamId}
    {s t : Session} {vs : List Verdict} (h : (e.judgeAll rank r ps).run s = .ok (vs, t)) :
    List.Forall₂ J ps vs := by
  induction ps generalizing s vs with
  | nil =>
    cases h
    exact .nil
  | cons p ps ih =>
    obtain ⟨v, u, hv, hrest⟩ := exists_of_run_bind h
    obtain ⟨vs', w, hvs, hpure⟩ := exists_of_run_bind hrest
    cases hpure
    exact .cons (hJ p s v u hv) (ih hvs)

theorem run_judgeAll {e : Engine} {rank : CallId → Run Ranked} {r : Request} {s : Session}
    {V : ParamId → Verdict} {ps : List ParamId}
    (h : ∀ p ∈ ps, (e.judge rank r p).run s = .ok (V p, s)) :
    (e.judgeAll rank r ps).run s = .ok (ps.map V, s) := by
  induction ps with
  | nil => rfl
  | cons p ps ih =>
    obtain ⟨hp, hps⟩ := List.forall_mem_cons.1 h
    unfold judgeAll
    rw [run_bind_of_ok hp, run_bind_of_ok (ih hps)]
    rfl

end Engine

end GenericCalls
