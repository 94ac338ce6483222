import GenericCalls.Ranking.Resolution
import Mathlib.Data.Bool.Basic
import Mathlib.Data.List.Basic
import Mathlib.Data.Prod.Lex

/-! # Tiers

Tiers are ordered by access before phase, and a ranking is the stable sort of its candidates by
tier. So the best candidates are all those of the leading tier, in their order, if this tier applies
at all. It need not, even if candidates apply: one that may be accessed comes before all that may
not, whether it applies or not. -/

namespace GenericCalls

/-! ### The order of tiers -/

def Phase.place : Phase → Nat
  | exact => 0
  | boxing => 1
  | variadic => 2
  | inapplicable => 3

/-- What tiers are ordered by: whether candidates may not be accessed, then the phase. -/
def Tier.key (t : Tier) : Bool ×ₗ Nat := toLex (!t.accessible, t.phase.place)

theorem Tier.key_injective {t u : Tier} (h : t.key = u.key) : t = u := by
  obtain ⟨a, p⟩ := t
  obtain ⟨b, q⟩ := u
  revert h
  cases a <;> cases b <;> cases p <;> cases q <;> decide

theorem Tier.pairwise_all : Tier.all.Pairwise fun t u => t.key < u.key := by decide

theorem Tier.accessible_of_key_le {t u : Tier} (h : t.key ≤ u.key) (hu : u.accessible = true) :
    t.accessible = true := by
  obtain ⟨a, p⟩ := t
  obtain ⟨b, q⟩ := u
  revert h hu
  cases a <;> cases b <;> cases p <;> cases q <;> decide

/-- A tier that does not apply comes before one that applies only on account of access. -/
theorem Tier.access_of_key_le {t u : Tier} (h : t.key ≤ u.key)
    (ht : t.phase.isApplicable = false) (hu : u.phase.isApplicable = true) :
    t.accessible = true ∧ u.accessible = false := by
  obtain ⟨a, p⟩ := t
  obtain ⟨b, q⟩ := u
  revert h ht hu
  cases a <;> cases b <;> cases p <;> cases q <;> decide

def Candidate.le (c d : Candidate) : Bool := decide (c.tier.key ≤ d.tier.key)

def Ordered (cs : List Candidate) : Prop := cs.Pairwise fun c d => c.tier.key ≤ d.tier.key

def inTier (t : Tier) (cs : List Candidate) : List Candidate := cs.filter fun c => c.tier == t

variable {c d : Candidate} {cs ds : List Candidate} {t : Tier}

theorem mem_inTier : c ∈ inTier t cs ↔ c ∈ cs ∧ c.tier = t := by
  rw [inTier, List.mem_filter, beq_iff_eq]

theorem inTier_eq_nil (h : ∀ c ∈ cs, c.tier ≠ t) : inTier t cs = [] :=
  List.filter_eq_nil_iff.2 fun c hc => by simpa using h c hc

theorem inTier_append (t : Tier) (cs ds : List Candidate) :
    inTier t (cs ++ ds) = inTier t cs ++ inTier t ds := List.filter_append ..

theorem inTier_cons_of_ne (h : c.tier ≠ t) (cs : List Candidate) :
    inTier t (c :: cs) = inTier t cs := List.filter_cons_of_neg (by simpa using h)

theorem inTier_cons_self (c : Candidate) (cs : List Candidate) :
    inTier c.tier (c :: cs) = c :: inTier c.tier cs := List.filter_cons_of_pos (by simp)

/-! ### Sorting by tier -/

theorem sortByTier_congr (h : ∀ t, inTier t cs = inTier t ds) : sortByTier cs = sortByTier ds :=
  congrArg Tier.all.flatMap (funext h)

theorem Tier.exists_split (t : Tier) : ∃ before after, Tier.all = before ++ t :: after ∧
    (∀ u ∈ before, u.key < t.key) ∧ ∀ u ∈ after, t.key < u.key := by
  obtain ⟨before, after, hall⟩ := List.append_of_mem t.mem_all
  have hpairwise := hall ▸ Tier.pairwise_all
  rw [List.pairwise_append, List.pairwise_cons] at hpairwise
  obtain ⟨-, ⟨hafter, -⟩, hbefore⟩ := hpairwise
  exact ⟨before, after, hall, fun u hu => hbefore u hu t List.mem_cons_self, hafter⟩

theorem sortByTier_eq_flatMap (cs : List Candidate) :
    sortByTier cs = Tier.all.flatMap (inTier · cs) := rfl

/-- One more candidate takes its place in its tier and moves no other one. Before it stand those of
better tiers and those that were listed before it. -/
theorem sortByTier_insert (cs ds : List Candidate) (c : Candidate) :
    ∃ as bs, sortByTier (cs ++ c :: ds) = as ++ c :: bs ∧ sortByTier (cs ++ ds) = as ++ bs ∧
      ∀ a ∈ as, a.tier.key < c.tier.key ∨ a ∈ cs := by
  obtain ⟨before, after, hall, hbefore, hafter⟩ := c.tier.exists_split
  have hother {ts : List Tier} (hts : ∀ t ∈ ts, c.tier ≠ t) :
      ts.flatMap (inTier · (cs ++ c :: ds)) = ts.flatMap (inTier · (cs ++ ds)) := by
    refine List.flatMap_congr fun t ht => ?_
    rw [inTier_append, inTier_cons_of_ne (hts t ht), ← inTier_append]
  have hother_before := hother fun t ht heq => (hbefore t ht).ne' (congrArg Tier.key heq)
  have hother_after := hother fun t ht heq => (hafter t ht).ne (congrArg Tier.key heq)
  refine ⟨before.flatMap (inTier · (cs ++ ds)) ++ inTier c.tier cs,
    inTier c.tier ds ++ after.flatMap (inTier · (cs ++ ds)), ?_, ?_, fun a ha => ?_⟩
  · rw [sortByTier_eq_flatMap, hall, List.flatMap_append, List.flatMap_cons, hother_before,
      hother_after, inTier_append, inTier_cons_self]
    simp only [List.append_assoc, List.cons_append]
  · rw [sortByTier_eq_flatMap, hall, List.flatMap_append, List.flatMap_cons, inTier_append]
    simp only [List.append_assoc]
  · rcases List.mem_append.1 ha with ha | ha
    · obtain ⟨t, ht, hat⟩ := List.mem_flatMap.1 ha
      rw [(mem_inTier.1 hat).2]
      exact .inl (hbefore t ht)
    · exact .inr (mem_inTier.1 ha).1

theorem sortByTier_cons (h : ∀ d ∈ cs, c.tier.key ≤ d.tier.key) :
    sortByTier (c :: cs) = c :: sortByTier cs := by
  obtain ⟨as, bs, hcons, hcs, has⟩ := sortByTier_insert [] cs c
  cases as with
  | nil =>
    rw [List.nil_append] at hcons hcs
    rw [hcs]
    exact hcons
  | cons a as =>
    have ha : a ∈ sortByTier ([] ++ cs) := hcs ▸ List.mem_cons_self
    have hlt := (has a List.mem_cons_self).resolve_right List.not_mem_nil
    exact absurd hlt (not_lt_of_ge (h a (mem_sortByTier.1 ha)))

theorem sortByTier_of_ordered (h : Ordered cs) : sortByTier cs = cs := by
  induction cs with
  | nil => rfl
  | cons c cs ih =>
    obtain ⟨hc, hcs⟩ := List.pairwise_cons.1 h
    rw [sortByTier_cons hc, ih hcs]

/-! ### Sorting by tier is stable sorting -/

theorem Candidate.trans (a b c : Candidate) (hab : a.le b = true) (hbc : b.le c = true) :
    a.le c = true :=
  decide_eq_true ((of_decide_eq_true hab).trans (of_decide_eq_true hbc))

theorem Candidate.total (a b : Candidate) : (a.le b || b.le a) = true := by
  rw [Bool.or_eq_true, Candidate.le, Candidate.le, decide_eq_true_eq, decide_eq_true_eq]
  exact le_total _ _

theorem ordered_mergeSort (cs : List Candidate) : Ordered (cs.mergeSort Candidate.le) :=
  (List.pairwise_mergeSort Candidate.trans Candidate.total cs).imp of_decide_eq_true

theorem inTier_mergeSort (t : Tier) (cs : List Candidate) :
    inTier t (cs.mergeSort Candidate.le) = inTier t cs := by
  have hpairwise : (inTier t cs).Pairwise fun c d => c.le d = true := by
    refine List.pairwise_of_forall_mem_list fun c hc d hd => decide_eq_true ?_
    rw [(mem_inTier.1 hc).2, (mem_inTier.1 hd).2]
  have hsub : (inTier t cs).Sublist (cs.mergeSort Candidate.le) :=
    List.sublist_mergeSort Candidate.trans Candidate.total hpairwise List.filter_sublist
  have hfilter : (inTier t (inTier t cs)).Sublist (inTier t (cs.mergeSort Candidate.le)) :=
    hsub.filter _
  have hidem : inTier t (inTier t cs) = inTier t cs := by
    simp only [inTier, List.filter_filter, Bool.and_self]
  have hlength : (inTier t (cs.mergeSort Candidate.le)).length = (inTier t cs).length :=
    ((List.mergeSort_perm cs Candidate.le).filter _).length_eq
  rw [hidem] at hfilter
  exact (hfilter.eq_of_length hlength.symm).symm

/-- Sorting candidates by tier is the stable sort by access and phase. -/
theorem sortByTier_eq_mergeSort (cs : List Candidate) :
    sortByTier cs = cs.mergeSort Candidate.le := by
  rw [sortByTier_congr fun t => (inTier_mergeSort t cs).symm,
    sortByTier_of_ordered (ordered_mergeSort cs)]

theorem ordered_sortByTier (cs : List Candidate) : Ordered (sortByTier cs) := by
  rw [sortByTier_eq_mergeSort]
  exact ordered_mergeSort cs

theorem inTier_sortByTier (t : Tier) (cs : List Candidate) :
    inTier t (sortByTier cs) = inTier t cs := by
  rw [sortByTier_eq_mergeSort, inTier_mergeSort]

/-! ### The leading tier -/

theorem takeWhile_eq_inTier (h : Ordered cs) (ht : ∀ c ∈ cs, t.key ≤ c.tier.key) :
    (cs.takeWhile fun c => c.tier == t) = inTier t cs := by
  induction cs with
  | nil => rfl
  | cons c cs ih =>
    obtain ⟨hc, hcs⟩ := List.pairwise_cons.1 h
    by_cases hct : c.tier = t
    · subst hct
      rw [inTier_cons_self, ← ih hcs hc]
      exact List.takeWhile_cons_of_pos (beq_self_eq_true c.tier)
    · have hlt : t.key < c.tier.key :=
        lt_of_le_of_ne (ht c List.mem_cons_self) fun heq => hct (Tier.key_injective heq).symm
      rw [inTier_cons_of_ne hct, inTier_eq_nil fun d hd heq => ?_]
      · exact List.takeWhile_cons_of_neg (by simpa using hct)
      · exact absurd (hc d hd) (not_le_of_gt (heq ▸ hlt))

namespace Resolution

variable {r r' : Resolution} {call : CallId}

theorem mem_applicable : c ∈ r.applicable ↔ c ∈ r.candidates ∧ c.phase.isApplicable = true :=
  List.mem_filter

theorem best_cons (h : Ordered (c :: cs)) : (Resolution.mk call (c :: cs)).best =
    if c.phase.isApplicable then inTier c.tier (c :: cs) else [] := by
  have hfirst : ∀ d ∈ c :: cs, c.tier.key ≤ d.tier.key :=
    List.forall_mem_cons.2 ⟨le_refl _, (List.pairwise_cons.1 h).1⟩
  rw [← takeWhile_eq_inTier h hfirst]
  rfl

theorem best_cons_eq_nil_iff (h : Ordered (c :: cs)) :
    (Resolution.mk call (c :: cs)).best = [] ↔ c.phase.isApplicable = false := by
  rw [best_cons h]
  cases c.phase.isApplicable with
  | false => simp
  | true => simp [inTier_cons_self]

/-- The best candidates are those of a tier that is no worse than any other, if it applies. -/
theorem best_eq_inTier (h : Ordered r.candidates) (hc : c ∈ r.candidates)
    (hleast : ∀ d ∈ r.candidates, c.tier.key ≤ d.tier.key)
    (happlies : c.phase.isApplicable = true) : r.best = inTier c.tier r.candidates := by
  obtain ⟨call, candidates⟩ := r
  cases candidates with
  | nil => cases hc
  | cons e es =>
    have hfirst : ∀ d ∈ e :: es, e.tier.key ≤ d.tier.key :=
      List.forall_mem_cons.2 ⟨le_refl _, (List.pairwise_cons.1 h).1⟩
    have htier : c.tier = e.tier :=
      Tier.key_injective (le_antisymm (hleast e List.mem_cons_self) (hfirst c hc))
    have hphase : c.phase = e.phase := congrArg Tier.phase htier
    rw [best_cons h, ← hphase, if_pos happlies, htier]

theorem uniqueBest?_eq_some_iff : r.uniqueBest? = some c ↔ r.best = [c] ∧ c.accessible = true := by
  unfold uniqueBest?
  constructor
  · intro h
    split at h
    · rename_i d hd
      split at h
      · rename_i hopen
        cases h
        exact ⟨hd, hopen⟩
      · cases h
    · cases h
  · rintro ⟨hbest, hopen⟩
    simp only [hbest, if_pos hopen]

/-! ### When nothing is best -/

/-- Some candidate may be accessed and some apply, but none that applies may be accessed. -/
structure Shadowed (r : Resolution) : Prop where
  accessible : ∃ c ∈ r.candidates, c.accessible = true
  applies : r.applicable ≠ []
  hidden : ∀ c ∈ r.applicable, c.accessible = false

theorem best_eq_nil_iff (h : Ordered r.candidates) :
    r.best = [] ↔ r.applicable = [] ∨ r.Shadowed := by
  obtain ⟨call, candidates⟩ := r
  cases candidates with
  | nil => exact iff_of_true rfl (.inl rfl)
  | cons c cs =>
    have hfirst : ∀ d ∈ c :: cs, c.tier.key ≤ d.tier.key :=
      List.forall_mem_cons.2 ⟨le_refl _, (List.pairwise_cons.1 h).1⟩
    rw [best_cons_eq_nil_iff h]
    constructor
    · intro hc
      by_cases hnone : (Resolution.mk call (c :: cs)).applicable = []
      · exact .inl hnone
      · have haccess {d : Candidate} (hd : d ∈ (Resolution.mk call (c :: cs)).applicable) :
            c.accessible = true ∧ d.accessible = false :=
          Tier.access_of_key_le (hfirst d (mem_applicable.1 hd).1) hc (mem_applicable.1 hd).2
        obtain ⟨d, hd⟩ := List.exists_mem_of_ne_nil _ hnone
        exact .inr ⟨⟨c, List.mem_cons_self, (haccess hd).1⟩, hnone, fun d hd => (haccess hd).2⟩
    · intro hnone
      refine Bool.eq_false_iff.2 fun hc => ?_
      have hmem : c ∈ (Resolution.mk call (c :: cs)).applicable :=
        mem_applicable.2 ⟨List.mem_cons_self, hc⟩
      rcases hnone with hnone | hshadowed
      · rw [hnone] at hmem
        cases hmem
      · obtain ⟨d, hd, haccessible⟩ := hshadowed.accessible
        have haccess := Tier.accessible_of_key_le (hfirst d hd) haccessible
        have hhidden := hshadowed.hidden c hmem
        exact Bool.false_ne_true (hhidden.symm.trans haccess)

/-! ### One more candidate -/

/-- A ranking has one candidate more than another, and the others as they are there. -/
def Adds (r' : Resolution) (c : Candidate) (r : Resolution) : Prop :=
  ∃ as bs, r'.candidates = as ++ c :: bs ∧ r.candidates = as ++ bs

theorem Adds.mem (h : r'.Adds c r) (hd : d ∈ r'.candidates) : d = c ∨ d ∈ r.candidates := by
  obtain ⟨as, bs, hr', hr⟩ := h
  rw [hr', List.mem_append, List.mem_cons] at hd
  rw [hr, List.mem_append]
  tauto

theorem Adds.applicable_eq (h : r'.Adds c r) (hc : c.phase.isApplicable = false) :
    r'.applicable = r.applicable := by
  obtain ⟨as, bs, hr', hr⟩ := h
  rw [applicable, applicable, hr, hr', List.filter_append, List.filter_append,
    List.filter_cons_of_neg (by simpa using hc)]

theorem Adds.best_eq_nil (h : r'.Adds c r) (hr : Ordered r.candidates) (hr' : Ordered r'.candidates)
    (hc : c.phase.isApplicable = false)
    (haccess : c.accessible = true → ∃ d ∈ r.candidates, d.accessible = true)
    (hnil : r'.best = []) : r.best = [] := by
  have happlicable := h.applicable_eq hc
  refine (best_eq_nil_iff hr).2 (((best_eq_nil_iff hr').1 hnil).imp (fun hnone => ?_) fun hs => ?_)
  · rw [← happlicable, hnone]
  · refine ⟨?_, happlicable ▸ hs.applies, happlicable ▸ hs.hidden⟩
    obtain ⟨d, hd, hopen⟩ := hs.accessible
    rcases h.mem hd with rfl | hd
    · exact haccess hopen
    · exact ⟨d, hd, hopen⟩

/-- One more candidate that does not apply leaves the best ones as they are, unless it is the only
one that may be accessed. -/
theorem Adds.best_eq (h : r'.Adds c r) (hr : Ordered r.candidates) (hr' : Ordered r'.candidates)
    (hc : c.phase.isApplicable = false)
    (haccess : c.accessible = true → ∃ d ∈ r.candidates, d.accessible = true) :
    r'.best = r.best := by
  have hnil := h.best_eq_nil hr hr' hc haccess
  obtain ⟨as, bs, hcandidates', hcandidates⟩ := h
  obtain ⟨call, candidates⟩ := r
  obtain ⟨call', candidates'⟩ := r'
  dsimp only at hr hr' hcandidates hcandidates'
  subst hcandidates hcandidates'
  cases as with
  | nil =>
    -- The new candidate leads, so nothing is best with it, and nothing was without it.
    have hnone : (Resolution.mk call' (c :: bs)).best = [] := (best_cons_eq_nil_iff hr').2 hc
    exact hnone.trans (hnil hnone).symm
  | cons a as =>
    simp only [List.cons_append] at hr hr' ⊢
    rw [best_cons hr, best_cons hr']
    split
    · rename_i ha
      have hne : c.tier ≠ a.tier := by
        intro heq
        have hphase : c.phase = a.phase := congrArg Tier.phase heq
        rw [hphase, ha] at hc
        cases hc
      rw [← List.cons_append, ← List.cons_append, inTier_append, inTier_cons_of_ne hne,
        ← inTier_append]
    · rfl

end Resolution

end GenericCalls
