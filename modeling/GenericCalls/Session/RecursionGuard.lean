import GenericCalls.Limits

/-! # Guards against runaway recursion

A guard knows which keys are being visited, and lets no key in twice, nor more than a limited number
of keys at once. -/

namespace GenericCalls

inductive Entry where
  | entered | cycle | tooDeep
deriving DecidableEq, Repr, Inhabited

def Entry.isDenied : Entry → Bool
  | .entered => false
  | _ => true

/-- The keys that are being visited, the latest first, with their number and its limit, and whether
a key was ever denied because of the limit. -/
structure RecursionGuard (κ : Type) where
  active : List κ
  depth : Nat
  maxDepth : Nat
  exceeded : Bool
deriving Repr, Inhabited

namespace RecursionGuard

variable {κ : Type} [DecidableEq κ]

def ofMax (maxDepth : Nat) : RecursionGuard κ := ⟨[], 0, maxDepth, false⟩

def isVisiting (g : RecursionGuard κ) (k : κ) : Bool := decide (k ∈ g.active)

def isActive (g : RecursionGuard κ) : Bool := !g.active.isEmpty

/-- Tries to enter with a key. A key that is being visited is a cycle; otherwise the limit may deny
it, which is remembered. -/
def enter (g : RecursionGuard κ) (k : κ) : Entry × RecursionGuard κ :=
  if k ∈ g.active then (.cycle, g)
  else if g.maxDepth ≤ g.depth then (.tooDeep, { g with exceeded := true })
  else (.entered, { g with active := k :: g.active, depth := g.depth + 1 })

/-- Leaves with a key; none if the key is not being visited. -/
def leave? (g : RecursionGuard κ) (k : κ) : Option (RecursionGuard κ) :=
  if k ∈ g.active then some { g with active := g.active.erase k, depth := g.depth - 1 } else none

/-- How many more keys the limit lets in. -/
def room (g : RecursionGuard κ) : Nat := g.maxDepth - g.depth

theorem leave?_enter {g h : RecursionGuard κ} {k : κ} (e : g.enter k = (.entered, h)) :
    h.leave? k = some g := by
  unfold enter at e
  split at e
  · cases e
  · split at e
    · cases e
    · simp only [Prod.mk.injEq, true_and] at e
      subst e
      simp [leave?]

end RecursionGuard

end GenericCalls
