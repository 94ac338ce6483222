import GenericCalls.Inference.Answer
import GenericCalls.Proofs.Lub.Preserves
import GenericCalls.Proofs.Match.Preserves

/-! # Evidence with a property

A type parameter gets its answer from arguments or from its siblings by matching and joining. Where
the store preserves a property, such answers have it if the types do from which they are taken. -/

namespace GenericCalls

open Ty Store

variable {P : Ty → Prop} {s : Store} {t : Ty}

/-! ### Evidence -/

namespace Evidence

structure Within (P : Ty → Prop) (e : Evidence) : Prop where
  exact : ∀ t, e.exact = some t → P t
  captured : ∀ t, e.captured = some t → P t
  lower : ∀ t, e.lower = some t → P t
  upper : ∀ t, e.upper = some t → P t

/-- The evidence after further matches has the property `P`, or there is a fatal verdict. -/
inductive Extends (P : Ty → Prop) : Except Verdict Evidence → Prop where
  | ok {e : Evidence} (h : e.Within P) : Extends P (.ok e)
  | error {v : Verdict} (h : v.isFatal = true) : Extends P (.error v)

theorem within_none (P : Ty → Prop) : Within P {} := by
  constructor <;> exact fun t ht => nomatch ht

theorem extends_addConstraint (hs : s.Preserves P) {e : Evidence} (he : e.Within P)
    {c : Constraint} (hc : P c.ty) : Extends P (e.addConstraint s c) := by
  have hnew : ∀ t, some c.ty = some t → P t := fun t ht => Option.some.inj ht ▸ hc
  unfold addConstraint
  split
  · split
    · split
      · exact .error rfl
      · exact .ok ⟨he.exact, hnew, he.lower, he.upper⟩
    · exact .ok ⟨hnew, he.captured, he.lower, he.upper⟩
  · split
    · exact .ok ⟨he.exact, he.captured, hnew, he.upper⟩
    · rename_i t ht
      split
      · exact .ok he
      · split
        · rename_i u hu
          refine .ok ⟨he.exact, he.captured, fun u' hu' => ?_, he.upper⟩
          cases hu'
          exact hs.lub (he.lower t ht) hc hu
        · exact .error rfl
  · refine .ok ⟨he.exact, he.captured, he.lower, fun t ht => ?_⟩
    cases ht
    cases hupper : e.upper with
    | none => exact hc
    | some u => exact he.upper u hupper

theorem extends_add (hs : s.Preserves P) {e : Evidence} (he : e.Within P) {r : MatchResult}
    (hr : r.Finds P) : Extends P (e.add s r) := by
  unfold add
  split
  · split
    · split
      · exact .error rfl
      · exact .ok he
    · exact .ok he
  · split
    · exact .ok he
    · exact .error rfl
    · exact .error rfl
    · rename_i c
      exact extends_addConstraint hs he (hr c rfl)

theorem extends_addAll (hs : s.Preserves P) {rs : List MatchResult} (hrs : ∀ r ∈ rs, r.Finds P)
    {e : Evidence} (he : e.Within P) : Extends P (e.addAll s rs) := by
  unfold addAll
  induction rs generalizing e with
  | nil => exact .ok he
  | cons r rs ih =>
    obtain ⟨hr, hrs⟩ := List.forall_mem_cons.1 hrs
    rw [List.foldlM_cons]
    generalize hadd : e.add s r = added
    cases hadd ▸ extends_add hs he hr with
    | ok h => exact ih hrs h
    | error h => exact .error h

theorem exists_of_addAll_cons {e e' : Evidence} {r : MatchResult} {rs : List MatchResult}
    (h : e.addAll s (r :: rs) = .ok e') : ∃ m, e.add s r = .ok m ∧ m.addAll s rs = .ok e' := by
  rw [addAll, List.foldlM_cons] at h
  exact exists_of_bind_ok h

theorem isFatal_of_addAll {rs : List MatchResult} {e : Evidence} {v : Verdict}
    (h : e.addAll s rs = .error v) : v.isFatal = true := by
  have he : e.Within fun _ => True := by constructor <;> exact fun _ _ => trivial
  have hall : Extends _ (e.addAll s rs) :=
    extends_addAll s.preserves_true (fun _ _ _ _ => trivial) he
  rw [h] at hall
  cases hall with
  | error hfatal => exact hfatal

/-- What evidence with the property decides: a fatal verdict, or an answer or upper bound that has
it. -/
inductive Decides (P : Ty → Prop) : ArgumentVerdict → Prop where
  | fatal {v : Verdict} (h : v.isFatal = true) : Decides P (.decided v)
  | exact {t : Ty} (h : P t) : Decides P (.decided (.resolved ⟨t, .exactly⟩))
  | pending {upper : Option Ty} (h : ∀ t, upper = some t → P t) : Decides P (.pending upper)

theorem decides_decide? (hs : s.Preserves P) {e : Evidence} (he : e.Within P) :
    Decides P (e.decide? s) := by
  unfold decide?
  split
  · rename_i t ht
    exact .exact (he.exact t ht)
  · rename_i w b _ hw hb
    split
    · split
      · rename_i t ht
        exact .exact (hs.lub (he.lower b hb) (he.captured w hw) ht)
      · exact .fatal rfl
    · exact .fatal rfl
  · rename_i w _ hw _
    split
    · exact .exact (he.captured w hw)
    · exact .fatal rfl
  · rename_i b _ _ hb
    exact .exact (he.lower b hb)
  · exact .pending he.upper

end Evidence

namespace Request

variable {r : Request} {blocked : CallId → Bool} {p : ParamId}

theorem slot_has (hs : s.Preserves P) {index : Nat} {slot : Ty × Ty} (ht : P t)
    (h : r.slot? index t = some slot) : P slot.2 := by
  unfold slot? at h
  obtain ⟨f, _, rfl⟩ := Option.map_eq_some_iff.1 h
  split
  · exact ht
  · split
    · exact ht
    · rename_i u hu
      split at hu
      · split
        · exact ht
        · cases t with
          | array t =>
            cases hu
            exact hs.array.1 ht
          | _ => cases hu
      · cases hu

theorem slots_have (hs : s.Preserves P) (hargs : ∀ a ∈ r.args, ∀ t ∈ a.ty, P t) :
    ∀ slot ∈ r.slots blocked, P slot.2 := by
  intro slot hslot
  obtain ⟨⟨a, index⟩, ha, hsome⟩ := List.mem_filterMap.1 hslot
  dsimp only at hsome
  split at hsome
  · cases hsome
  · obtain ⟨t, ht, hslot⟩ := Option.bind_eq_some_iff.1 hsome
    exact slot_has hs (hargs a (List.fst_mem_of_mem_zipIdx ha) t ht) hslot

theorem decides_argumentVerdict (hs : s.Preserves P) (hargs : ∀ a ∈ r.args, ∀ t ∈ a.ty, P t)
    (blocked : CallId → Bool) (p : ParamId) :
    Evidence.Decides P (r.argumentVerdict s blocked p) := by
  have hresults : ∀ m ∈ r.results s blocked p, m.Finds P := by
    intro m hm
    obtain ⟨slot, hslot, rfl⟩ := List.mem_map.1 hm
    exact hs.constrain (slots_have hs hargs slot hslot)
  unfold argumentVerdict
  generalize hadd : ({} : Evidence).addAll s (r.results s blocked p) = added
  cases hadd ▸ Evidence.extends_addAll hs hresults (Evidence.within_none P) with
  | ok h => exact Evidence.decides_decide? hs h
  | error h => exact .fatal h

end Request

/-! ### Siblings -/

namespace Store

theorem Preserves.lubAll (hs : s.Preserves P) {ts : List Ty} (hts : ∀ t ∈ ts, P t)
    (h : s.lubAll ts = some t) : P t := by
  cases ts with
  | nil => cases h
  | cons u us =>
    obtain ⟨hu, hus⟩ := List.forall_mem_cons.1 hts
    exact hs.foldlM_lub hu hus h

variable {given : Substitution} {params : List ParamId} {known : List (Option Ty)} {i : Nat}

theorem mem_known_of_siblingBounds {b : Ty × Ty}
    (h : b ∈ s.siblingBounds given params known i) : some b.2 ∈ known := by
  unfold siblingBounds at h
  obtain ⟨⟨⟨q, u⟩, j⟩, hmem, hb⟩ := List.mem_flatMap.1 h
  have hu : u ∈ known := (List.of_mem_zip (List.fst_mem_of_mem_zipIdx hmem)).2
  cases u with
  | none => cases hb
  | some u =>
    dsimp only at hb
    split at hb
    · cases hb
    · obtain ⟨c, _, hc⟩ := List.mem_filterMap.1 hb
      obtain ⟨v, _, rfl⟩ := Option.map_eq_some_iff.1 hc
      exact hu

theorem Preserves.fromSiblings (hs : s.Preserves P) {p : ParamId}
    (hknown : ∀ u, some u ∈ known → P u)
    (h : s.fromSiblings given params known i p = some t) : P t := by
  have hfound : ∀ c ∈ s.siblingConstraints p (s.siblingBounds given params known i), P c.ty := by
    intro c hc
    obtain ⟨b, hb, hc⟩ := List.mem_filterMap.1 hc
    exact (hs.constrain (hknown _ (mem_known_of_siblingBounds hb))).constraint? hc
  rw [fromSiblings_eq] at h
  rcases Option.or_eq_some_iff.1 h with hexact | ⟨-, hjoin⟩
  · obtain ⟨c, hc, rfl⟩ := Option.map_eq_some_iff.1 hexact
    exact hfound c (List.mem_of_find?_eq_some hc)
  · refine hs.lubAll (fun u hu => ?_) hjoin
    obtain ⟨c, hc, rfl⟩ := List.mem_map.1 hu
    exact hfound c (List.mem_of_mem_filter hc)

theorem Preserves.reconcileFrom (hs : s.Preserves P) {todo : List (ParamId × Nat)}
    (hknown : ∀ u, some u ∈ known → P u) :
    ∀ u, some u ∈ s.reconcileFrom given params todo known → P u := by
  induction todo generalizing known with
  | nil => exact hknown
  | cons e rest ih =>
    obtain ⟨p, i⟩ := e
    rw [Store.reconcileFrom]
    split
    · refine ih fun u hu => ?_
      rcases List.mem_or_eq_of_mem_set hu with hu | hu
      · exact hknown u hu
      · exact hs.fromSiblings hknown hu.symm
    · exact ih hknown

end Store

end GenericCalls
