import GenericCalls.Call.Site
import Mathlib.Data.List.Nodup
import Mathlib.Logic.Relation

/-! # Forests of calls

The calls of a program form a forest when a call is an argument in one place at most and none is
nested in itself. What lies within a call can then be left in one way only: through the slot that
the call sits in. -/

namespace GenericCalls

/-- The slot that a context names: the call around it and the index. -/
def CallContext.slot? : CallContext → Option (CallId × Nat)
  | .argument outer index => some (outer, index)
  | _ => none

namespace CallGraph
open Relation (ReflTransGen TransGen)

def Nests (g : CallGraph) (outer inner : CallId) : Prop :=
  ∃ site, g.site? outer = some site ∧ .call inner ∈ site.args

/-- A call is another one or nested in it, however deep. -/
def Within (g : CallGraph) (outer inner : CallId) : Prop := ReflTransGen g.Nests outer inner

def SitsAt (g : CallGraph) (inner outer : CallId) (index : Nat) : Prop :=
  ∃ site, g.site? outer = some site ∧ site.args[index]? = some (.call inner)

/-- The slots with calls in them among arguments: each with its call, the call around it and the
index. -/
def slotsAmong (outer : CallId) (args : List Argument) : List (CallId × CallId × Nat) :=
  args.zipIdx.filterMap fun a => a.1.call?.map (·, outer, a.2)

def slots (g : CallGraph) : List (CallId × CallId × Nat) :=
  g.sites.entries.flatMap fun e => slotsAmong e.1 e.2.args

def Keyed (g : CallGraph) : Prop := ∀ {call site}, g.site? call = some site → site.id = call

/-- Every call sits in one slot at most, the context of an argument names that slot, and no call is
nested in itself. -/
structure Forest (g : CallGraph) : Prop where
  keyed : g.Keyed
  single : ∀ {c o i o' i'}, g.SitsAt c o i → g.SitsAt c o' i' → o = o' ∧ i = i'
  placed : ∀ {call site outer index}, g.site? call = some site →
    site.context = .argument outer index → g.SitsAt call outer index
  acyclic : ∀ c, ¬TransGen g.Nests c c

def Complete (g : CallGraph) : Prop := ∀ {outer inner}, g.Nests outer inner → inner ∈ g.ids

variable {g : CallGraph} {outer inner call : CallId} {site : CallSite} {index : Nat}

theorem mem_ids_of_site (h : g.site? call = some site) : call ∈ g.ids := by
  refine Decidable.byContradiction fun hcall => ?_
  have hnone : g.site? call = none := KeyedList.get?_eq_none_iff.2 hcall
  rw [hnone] at h
  cases h

theorem exists_site_of_mem_ids (h : call ∈ g.ids) : ∃ site, g.site? call = some site := by
  refine Option.ne_none_iff_exists'.1 fun hnone => ?_
  exact KeyedList.get?_eq_none_iff.1 hnone h

/-! ### Slots -/

theorem mem_slotsAmong {args : List Argument} :
    (inner, call, index) ∈ slotsAmong outer args ↔
      outer = call ∧ args[index]? = some (.call inner) := by
  unfold slotsAmong
  simp only [List.mem_filterMap, Option.map_eq_some_iff, Prod.mk.injEq, Prod.exists]
  constructor
  · rintro ⟨a, i, hmem, c, hc, rfl, rfl, rfl⟩
    have hslot := List.mk_mem_zipIdx_iff_getElem?.1 hmem
    cases a with
    | known ty => cases hc
    | call id =>
      cases hc
      exact ⟨rfl, hslot⟩
  · rintro ⟨rfl, hslot⟩
    exact ⟨.call inner, index, List.mk_mem_zipIdx_iff_getElem?.2 hslot, inner, rfl, rfl, rfl, rfl⟩

theorem mem_slots : (inner, outer, index) ∈ g.slots ↔ g.SitsAt inner outer index := by
  unfold slots SitsAt
  simp only [List.mem_flatMap, Prod.exists, mem_slotsAmong]
  constructor
  · rintro ⟨o, site, hmem, rfl, hslot⟩
    exact ⟨site, KeyedList.mem_entries_iff.1 hmem, hslot⟩
  · rintro ⟨site, hsite, hslot⟩
    exact ⟨outer, site, KeyedList.mem_entries_iff.2 hsite, rfl, hslot⟩

theorem sitsAt_unique (h : (g.slots.map Prod.fst).Nodup) {o o' i i'} (hi : g.SitsAt call o i)
    (hi' : g.SitsAt call o' i') : o = o' ∧ i = i' := by
  have heq := List.inj_on_of_nodup_map h (mem_slots.2 hi) (mem_slots.2 hi') rfl
  cases heq
  exact ⟨rfl, rfl⟩

/-! ### Nesting -/

theorem SitsAt.nests (h : g.SitsAt inner outer index) : g.Nests outer inner := by
  obtain ⟨site, hsite, hslot⟩ := h
  exact ⟨site, hsite, List.mem_of_getElem? hslot⟩

theorem Nests.exists_sitsAt (h : g.Nests outer inner) : ∃ index, g.SitsAt inner outer index := by
  obtain ⟨site, hsite, hmem⟩ := h
  obtain ⟨index, hslot⟩ := List.getElem?_of_mem hmem
  exact ⟨index, site, hsite, hslot⟩

theorem Within.refl (g : CallGraph) (c : CallId) : g.Within c c := ReflTransGen.refl

theorem Within.tail {root : CallId} (h : g.Within root outer) (hnests : g.Nests outer inner) :
    g.Within root inner :=
  ReflTransGen.tail h hnests

theorem not_transGen_of_lt (rank : CallId → Nat)
    (h : ∀ {outer inner}, g.Nests outer inner → rank outer < rank inner) (c : CallId) :
    ¬TransGen g.Nests c c := by
  have hlt {a b : CallId} (hab : TransGen g.Nests a b) : rank a < rank b := by
    induction hab with
    | single hab => exact h hab
    | tail _ hbc ih => exact Nat.lt_trans ih (h hbc)
  exact fun hc => Nat.lt_irrefl _ (hlt hc)

theorem not_transGen_of_slots (hlt : ∀ slot ∈ g.slots, slot.2.1 < slot.1) (c : CallId) :
    ¬TransGen g.Nests c c := by
  refine not_transGen_of_lt id (fun hnests => ?_) c
  obtain ⟨index, hslot⟩ := hnests.exists_sitsAt
  exact hlt _ (mem_slots.2 hslot)

theorem forest_of_slots (hkeyed : ∀ e ∈ g.sites.entries, e.2.id = e.1)
    (hsingle : (g.slots.map Prod.fst).Nodup)
    (hplaced : ∀ e ∈ g.sites.entries, ∀ slot ∈ e.2.context.slot?, (e.1, slot) ∈ g.slots)
    (hlt : ∀ slot ∈ g.slots, slot.2.1 < slot.1) : g.Forest where
  keyed h := hkeyed _ (KeyedList.mem_entries_iff.2 h)
  single := sitsAt_unique hsingle
  placed := by
    intro call site outer index hsite hcontext
    have hslot : (outer, index) ∈ site.context.slot? := by
      rw [hcontext]
      rfl
    exact mem_slots.1 (hplaced _ (KeyedList.mem_entries_iff.2 hsite) _ hslot)
  acyclic := not_transGen_of_slots hlt

namespace Forest

theorem outer_unique {o o' : CallId} (hg : g.Forest) (h : g.Nests o call)
    (h' : g.Nests o' call) : o = o' := by
  obtain ⟨i, hi⟩ := h.exists_sitsAt
  obtain ⟨i', hi'⟩ := h'.exists_sitsAt
  exact (hg.single hi hi').1

theorem not_within_of_nests (hg : g.Forest) (h : g.Nests outer inner) :
    ¬g.Within inner outer := fun hwithin => hg.acyclic outer (.head' h hwithin)

theorem ne_of_nests_within {root : CallId} (hg : g.Forest) (h : g.Within root outer)
    (hnests : g.Nests outer inner) : inner ≠ root := by
  rintro rfl
  exact hg.not_within_of_nests hnests h

/-- What is nested in a call, but is not that call, is an argument of what lies within it. -/
theorem within_of_nests {root : CallId} (hg : g.Forest) (h : g.Within root inner)
    (hne : inner ≠ root) (hnests : g.Nests outer inner) : g.Within root outer := by
  obtain rfl | ⟨o, ho, hinner⟩ := ReflTransGen.cases_tail h
  · exact absurd rfl hne
  · rw [hg.outer_unique hnests hinner]
    exact ho

end Forest

end CallGraph

end GenericCalls
