import GenericCalls.Proofs.Assignable.Rules
import GenericCalls.Session.Basic
import Mathlib.Data.List.Forall2

/-! # Captured type arguments

A captured wildcard falls under the wildcard that it captures, and every other type argument falls
under itself. So the wildcards that a class type is written with accept what they are captured to,
within two nested checks. -/

namespace GenericCalls

/-! ### Capturing -/

/-- What a type argument is captured to: a wildcard to some capture of it, other types to
themselves. -/
def Ty.Captures : Ty → Ty → Prop
  | .wild k b, u => ∃ i, u = .captured i k b
  | t, u => u = t

theorem Ty.Captures.isWild {t u : Ty} (h : t.Captures u) : u.isWild = false := by
  cases t with
  | wild k b =>
    obtain ⟨i, rfl⟩ := h
    rfl
  | _ =>
    cases h
    rfl

theorem Ty.captures_of_reopen {t : Ty} (h : t.isWild = false) : t.reopen.Captures t := by
  cases t with
  | wild k b => cases h
  | captured i k b => exact ⟨i, rfl⟩
  | _ => rfl

theorem Session.captureArgs_captures (s : Session) (ts : List Ty) :
    List.Forall₂ Ty.Captures ts (s.captureArgs ts).1 := by
  induction ts generalizing s with
  | nil => exact .nil
  | cons t ts ih =>
    cases t with
    | wild k b => exact .cons ⟨_, rfl⟩ (ih _)
    | _ => exact .cons rfl (ih _)

/-! ### Falling under the wildcard -/

namespace Store

variable {s : Store} {boxing : Bool}

/-- A type argument falls under another one without a check, or because a known type accepts
itself. -/
def FallsUnder (s : Store) (want arg : Ty) : Prop :=
  s.demand want arg = .always ∨ ∃ b, b.isUnknown = false ∧ s.demand want arg = .check b b

theorem fallsUnder_anything (k : WildcardKind) (arg : Ty) : s.FallsUnder (.wild k none) arg :=
  .inl rfl

theorem fallsUnder_of_captures {t u : Ty} (h : t.Captures u)
    (hknown : ∀ k, t ≠ .wild k (some .unknown)) : s.FallsUnder t u := by
  have hsame (hwild : t.isWild = false) (hu : u = t) : s.FallsUnder t u := by
    rw [FallsUnder, demand_of_not_wild hwild, hu, if_pos (beq_self_eq_true t)]
    exact .inl rfl
  cases t with
  | wild k b =>
    obtain ⟨i, rfl⟩ := h
    cases b with
    | none => exact .inl rfl
    | some b =>
      have hb : b.isUnknown = false := by
        cases b with
        | unknown => exact absurd rfl (hknown k)
        | _ => rfl
      cases k with
      | upper => exact .inr ⟨b, hb, rfl⟩
      | lower => exact .inr ⟨b, hb, rfl⟩
  | _ => exact hsame rfl h

theorem assignableWithin_self {t : Ty} (n : Nat) (h : t.isUnknown = false) :
    s.assignableWithin boxing (n + 1) t t = true :=
  assignableStep_of_rule (.same h (beq_self_eq_true t))

theorem assignableWithin_of_raw {c d : ClassId} {args brgs lifted : List Ty} (n : Nat)
    (hview : s.ancestorArgs ⟨d, brgs⟩ c = some lifted)
    (h : args = [] ∨ lifted = [] ∨ args.length ≠ lifted.length) :
    s.assignableWithin boxing (n + 1) (.cls c args) (.cls d brgs) = true := by
  have hrule : Rule s boxing (fun t u => s.assignableWithin boxing n t u = true) (.cls c args)
      (.cls d brgs) := .raw hview h
  exact assignableStep_of_rule hrule

/-- A class type accepts one that is seen with type arguments that fall under its own. -/
theorem assignableWithin_of_fallsUnder {c d : ClassId} {args brgs lifted : List Ty} (n : Nat)
    (hview : s.ancestorArgs ⟨d, brgs⟩ c = some lifted)
    (h : ∀ p ∈ args.zip lifted, s.FallsUnder p.1 p.2) :
    s.assignableWithin boxing (n + 2) (.cls c args) (.cls d brgs) = true := by
  refine assignableStep_of_rule (.args hview (fun p hp hnever => ?_) fun p hp t u hcheck => ?_)
  · rcases h p hp with halways | ⟨b, _, hb⟩
    · cases hnever.symm.trans halways
    · cases hnever.symm.trans hb
  · rcases h p hp with halways | ⟨b, hknown, hb⟩
    · cases hcheck.symm.trans halways
    · cases hcheck.symm.trans hb
      exact assignableWithin_self n hknown

end Store

end GenericCalls
