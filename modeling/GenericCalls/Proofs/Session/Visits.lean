import GenericCalls.Session.RecursionGuard
import Mathlib.Data.List.Nodup

/-! # Visits to a guard

Keys enter and leave a guard in any order. Whatever is asked of a guard, it counts exactly the keys
that are inside and lets in no more than its limit. It tells why it denies a key, and a denied key
changes nothing but the memory of a limit that was met. A key that was let in leaves the guard as it
was; a key that is not inside cannot leave. -/

namespace GenericCalls.RecursionGuard

variable {κ : Type} [DecidableEq κ] {g h : RecursionGuard κ} {k : κ}

/-! ### Leaving, one assignment after another -/

/-- Leaves with a key: the key is taken out, the guard insists that it was inside, and the count
goes down. The answer is whether it was inside; if not, the guard is left as it stands then. -/
def leaving (g : RecursionGuard κ) (k : κ) : Bool × RecursionGuard κ :=
  let inside := decide (k ∈ g.active)
  let taken : RecursionGuard κ := { g with active := g.active.erase k }
  if inside then (true, { taken with depth := taken.depth - 1 }) else (false, taken)

theorem leaving_of_mem (hk : k ∈ g.active) :
    g.leaving k = (true, { g with active := g.active.erase k, depth := g.depth - 1 }) := by
  simp [leaving, hk]

theorem leaving_of_not_mem (hk : k ∉ g.active) : g.leaving k = (false, g) := by
  simp [leaving, hk, List.erase_of_not_mem hk]

theorem leave?_eq_leaving (g : RecursionGuard κ) (k : κ) :
    g.leave? k = if (g.leaving k).1 then some (g.leaving k).2 else none := by
  by_cases hk : k ∈ g.active
  · simp [leave?, hk, leaving_of_mem hk]
  · simp [leave?, hk, leaving_of_not_mem hk]

/-! ### Sequences of visits -/

inductive Visit (κ : Type) where
  | enter (k : κ)
  | leave (k : κ)
deriving DecidableEq, Repr

/-- What a guard answers: how an entry went, or whether a key that leaves was inside. -/
inductive Reply where
  | entry (e : Entry)
  | left
  | notInside
deriving DecidableEq, Repr

def visit (g : RecursionGuard κ) : Visit κ → Reply × RecursionGuard κ
  | .enter k => (.entry (g.enter k).1, (g.enter k).2)
  | .leave k => (if (g.leaving k).1 then .left else .notInside, (g.leaving k).2)

def visits (g : RecursionGuard κ) : List (Visit κ) → List Reply × RecursionGuard κ
  | [] => ([], g)
  | v :: vs =>
    let (rs, h) := (g.visit v).2.visits vs
    ((g.visit v).1 :: rs, h)

/-! ### Counting -/

/-- A guard counts the keys inside, and lets in no more than `limit`. -/
structure Counts (limit : Nat) (g : RecursionGuard κ) : Prop where
  depth : g.depth = g.active.length
  maxDepth : g.maxDepth = limit

/-- A guard counts the keys inside, each once and no more than the limit. -/
structure Tallied (limit : Nat) (g : RecursionGuard κ) : Prop extends Counts limit g where
  nodup : g.active.Nodup
  depth_le : g.depth ≤ limit

variable {limit : Nat}

theorem counts_ofMax {α : Type} (limit : Nat) : (ofMax limit : RecursionGuard α).Counts limit :=
  ⟨rfl, rfl⟩

theorem Counts.enter (hg : g.Counts limit) (k : κ) : (g.enter k).2.Counts limit := by
  unfold RecursionGuard.enter
  split
  · exact hg
  · split
    · exact ⟨hg.depth, hg.maxDepth⟩
    · exact ⟨congrArg (· + 1) hg.depth, hg.maxDepth⟩

theorem Counts.leaving (hg : g.Counts limit) (k : κ) : (g.leaving k).2.Counts limit := by
  by_cases hk : k ∈ g.active
  · rw [leaving_of_mem hk]
    refine ⟨?_, hg.maxDepth⟩
    show g.depth - 1 = (g.active.erase k).length
    rw [List.length_erase_of_mem hk, hg.depth]
  · rw [leaving_of_not_mem hk]
    exact hg

theorem Counts.leave? (hg : g.Counts limit) (hl : g.leave? k = some h) : h.Counts limit := by
  rw [leave?_eq_leaving] at hl
  split at hl
  · rw [← Option.some.inj hl]
    exact hg.leaving k
  · cases hl

theorem tallied_ofMax {α : Type} (limit : Nat) : (ofMax limit : RecursionGuard α).Tallied limit :=
  ⟨counts_ofMax limit, List.nodup_nil, Nat.zero_le limit⟩

theorem Tallied.enter (hg : g.Tallied limit) (k : κ) : (g.enter k).2.Tallied limit := by
  suffices h : (g.enter k).2.active.Nodup ∧ (g.enter k).2.depth ≤ limit from
    ⟨hg.toCounts.enter k, h.1, h.2⟩
  unfold RecursionGuard.enter
  split
  · exact ⟨hg.nodup, hg.depth_le⟩
  · rename_i hk
    split
    · exact ⟨hg.nodup, hg.depth_le⟩
    · rename_i hroom
      have hmax := hg.maxDepth
      refine ⟨List.nodup_cons.2 ⟨hk, hg.nodup⟩, ?_⟩
      show g.depth + 1 ≤ limit
      omega

theorem Tallied.leaving (hg : g.Tallied limit) (k : κ) : (g.leaving k).2.Tallied limit := by
  suffices h : (g.leaving k).2.active.Nodup ∧ (g.leaving k).2.depth ≤ limit from
    ⟨hg.toCounts.leaving k, h.1, h.2⟩
  by_cases hk : k ∈ g.active
  · rw [leaving_of_mem hk]
    exact ⟨hg.nodup.erase k, Nat.le_trans (Nat.sub_le _ _) hg.depth_le⟩
  · rw [leaving_of_not_mem hk]
    exact ⟨hg.nodup, hg.depth_le⟩

theorem Tallied.visit (hg : g.Tallied limit) (v : Visit κ) : (g.visit v).2.Tallied limit := by
  cases v with
  | enter k => exact hg.enter k
  | leave k => exact hg.leaving k

theorem Tallied.visits (hg : g.Tallied limit) (vs : List (Visit κ)) :
    (g.visits vs).2.Tallied limit := by
  induction vs generalizing g with
  | nil => exact hg
  | cons v vs ih => exact ih (hg.visit v)

/-! ### Denied entries -/

theorem enter_eq_cycle_iff : (g.enter k).1 = .cycle ↔ k ∈ g.active := by
  unfold enter
  split
  · simp [*]
  · split <;> simp [*]

theorem Tallied.enter_eq_tooDeep_iff (hg : g.Tallied limit) :
    (g.enter k).1 = .tooDeep ↔ k ∉ g.active ∧ g.depth = limit := by
  have hmax := hg.maxDepth
  have hle := hg.depth_le
  unfold RecursionGuard.enter
  split
  · simp [*]
  · split
    · rename_i hk hfull
      have hdepth : g.depth = limit := by omega
      simp [hk, hdepth]
    · rename_i hk hroom
      have hdepth : g.depth ≠ limit := by omega
      simp [hdepth]

theorem enter_of_isDenied (hdenied : (g.enter k).1.isDenied = true) :
    (g.enter k).2.active = g.active ∧ (g.enter k).2.depth = g.depth := by
  unfold enter at hdenied ⊢
  split
  · exact ⟨rfl, rfl⟩
  · rename_i hk
    split
    · exact ⟨rfl, rfl⟩
    · rename_i hroom
      rw [if_neg hk, if_neg hroom] at hdenied
      cases hdenied

/-! ### Entries that succeed -/

theorem leaving_of_entered (h : (g.enter k).1 = .entered) :
    (g.enter k).2.leaving k = (true, g) := by
  have hleave : (g.enter k).2.leave? k = some g := leave?_enter (Prod.ext h rfl)
  rw [leave?_eq_leaving] at hleave
  split at hleave
  · rename_i htrue
    exact Prod.ext htrue (Option.some.inj hleave)
  · cases hleave

/-! ### Limits that were met -/

theorem exceeded_visit (g : RecursionGuard κ) (v : Visit κ) :
    (g.visit v).2.exceeded = true ↔ g.exceeded = true ∨ (g.visit v).1 = .entry .tooDeep := by
  cases v with
  | enter k =>
    unfold visit enter
    dsimp only
    split
    · simp
    · split <;> simp
  | leave k =>
    unfold visit
    by_cases hk : k ∈ g.active
    · simp [leaving_of_mem hk]
    · simp [leaving_of_not_mem hk]

theorem exceeded_visits (g : RecursionGuard κ) (vs : List (Visit κ)) :
    (g.visits vs).2.exceeded = true ↔
      g.exceeded = true ∨ Reply.entry .tooDeep ∈ (g.visits vs).1 := by
  induction vs generalizing g with
  | nil => simp [visits]
  | cons v vs ih =>
    show ((g.visit v).2.visits vs).2.exceeded = true ↔
      g.exceeded = true ∨ Reply.entry .tooDeep ∈ (g.visit v).1 :: ((g.visit v).2.visits vs).1
    rw [ih, exceeded_visit, List.mem_cons, or_assoc, eq_comm (a := Reply.entry .tooDeep)]

/-! ### All visits -/

/-- Whatever is asked of a guard, in whatever order, and also where keys that are not inside are to
leave: its depth is the number of keys inside and at most the limit. It answers an entry with a
cycle exactly if the key is inside, and else that it would be too deep exactly if the limit is
reached, and denies without a change of keys and depth. A key that it lets in leaves it as it was,
and one that is not inside is refused and leaves it as it is. It knows exactly if an entry was ever
too deep. -/
theorem visits_counted (limit : Nat) (vs : List (Visit κ)) :
    let rs := ((ofMax limit : RecursionGuard κ).visits vs).1
    let g := ((ofMax limit : RecursionGuard κ).visits vs).2
    (g.active.Nodup ∧ g.depth = g.active.length ∧ g.depth ≤ limit) ∧
      (∀ k, ((g.enter k).1 = .cycle ↔ g.isVisiting k = true) ∧
        ((g.enter k).1 = .tooDeep ↔ g.isVisiting k = false ∧ g.depth = limit) ∧
        ((g.enter k).1.isDenied = true →
          (g.enter k).2.active = g.active ∧ (g.enter k).2.depth = g.depth)) ∧
      (∀ k, (g.enter k).1 = .entered → (g.enter k).2.leaving k = (true, g)) ∧
      (g.exceeded = true ↔ Reply.entry .tooDeep ∈ rs) ∧
      ∀ k, g.isVisiting k = false → g.leaving k = (false, g) := by
  intro rs g
  have hg : g.Tallied limit := (tallied_ofMax limit).visits vs
  have hinside (k : κ) : g.isVisiting k = true ↔ k ∈ g.active := decide_eq_true_iff
  have houtside (k : κ) : g.isVisiting k = false ↔ k ∉ g.active := decide_eq_false_iff_not
  refine ⟨⟨hg.nodup, hg.depth, hg.depth_le⟩, fun k => ⟨?_, ?_, enter_of_isDenied⟩,
    fun k => leaving_of_entered, ?_, fun k hk => leaving_of_not_mem ((houtside k).1 hk)⟩
  · rw [hinside]
    exact enter_eq_cycle_iff
  · rw [houtside]
    exact hg.enter_eq_tooDeep_iff
  · have hnew : (ofMax limit : RecursionGuard κ).exceeded = false := rfl
    simpa [hnew] using exceeded_visits (ofMax limit) vs

/-- A key that is inside and enters again is denied as a cycle. If it leaves after that, it is no
longer inside, although it was before it entered. -/
theorem not_restored_after_cycle :
    let g := ((ofMax 2).visits [Visit.enter 1]).2
    (g.enter 1).1 = .cycle ∧ (g.enter 1).2.isVisiting 1 = true ∧
      ((g.enter 1).2.leaving 1).1 = true ∧ ((g.enter 1).2.leaving 1).2.active ≠ g.active ∧
      ((g.enter 1).2.leaving 1).2.depth ≠ g.depth := by
  decide

end GenericCalls.RecursionGuard
