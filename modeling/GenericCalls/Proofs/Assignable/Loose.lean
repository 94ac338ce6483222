import GenericCalls.Proofs.Assignable.Rules
import GenericCalls.Ranking.Applicability

/-! # Strict and loose contexts

Boxing adds rules to those of a strict context and takes none away, and no rule that is common to
both nests more checks in a loose context. So a subtype is assignable, also where the checks nest up
to the limit, and arguments that fit their formals in the first phase of ranking fit them in the
second. -/

namespace GenericCalls

namespace Store

variable {s : Store} {boxing : Bool} {t u : Ty}

theorem Rule.loosen {R : Ty → Ty → Prop} (h : Rule s false R t u) : Rule s boxing R t u := by
  cases h with
  | same known h => exact .same known h
  | null known => exact .null known
  | widen h => exact .widen h
  | unbox hboxing _ _ => cases hboxing
  | box _ _ hboxing _ _ => cases hboxing
  | anything href => exact .anything href
  | bound href h => exact .bound href h
  | each href h => exact .each href h
  | component hplain hu h => exact .component hplain hu h
  | upper hplain hv h => exact .upper hplain hv h
  | param hplain hb h => exact .param hplain hb h
  | unbounded hp h => exact .unbounded hp h
  | array href h => exact .array href h
  | arrayObject => exact .arrayObject
  | object => exact .object
  | raw hd hraw => exact .raw hd hraw
  | args hd hmet h => exact .args hd hmet h

/-- A strict check that succeeds within some number of nested checks needs no more of them in a
loose context. -/
theorem assignableWithin_loosen {n : Nat} (h : s.assignableWithin false n t u = true) :
    s.assignableWithin boxing n t u = true := by
  induction n generalizing t u with
  | zero => cases h
  | succ n ih =>
    have hrule := assignableStep_iff.1 h
    exact assignableStep_iff.2 (hrule.loosen.mono fun _ _ => ih)

end Store

namespace Engine

variable {s : Store}

theorem fits_loosen {strict : Bool} {formal : Ty} {arg : TypedArg}
    (h : fits s true formal arg = true) : fits s strict formal arg = true := by
  have hknown {t : Ty} (h : s.subtype formal t = true) :
      (if strict = true then s.subtype formal t else s.assignable formal t) = true := by
    cases strict with
    | true => exact h
    | false => exact Store.assignableWithin_loosen h
  obtain ⟨ty, call⟩ := arg
  cases ty with
  | none => rfl
  | some t =>
    cases t with
    | unknown => rfl
    | _ => exact hknown h

theorem fitAll_loosen {strict : Bool} {formals : List Ty} {args : List TypedArg}
    (h : fitAll s true formals args = true) : fitAll s strict formals args = true := by
  rw [fitAll, List.all_eq_true] at h ⊢
  exact fun p hp => fits_loosen (h p hp)

end Engine

namespace Store

open Engine

/-- A subtype is assignable, whatever the store and the types; and arguments that fit their formals
as subtypes fit them with boxing. -/
theorem assignable_of_subtype (s : Store) :
    (∀ target source, s.subtype target source = true → s.assignable target source = true) ∧
      ∀ formals args, fitAll s true formals args = true → fitAll s false formals args = true :=
  ⟨fun _ _ => assignableWithin_loosen, fun _ _ => fitAll_loosen⟩

/-- An array of `Integer` and an `int` fit an array of `? extends Number` and a `long`. -/
theorem assignable_of_subtype_numbers :
    let formals : List Ty := [.array (.extending (.raw 2)), .prim .long]
    let args : List TypedArg := [{ ty := some (.array (.raw 9)) }, { ty := some (.prim .int) }]
    standard.subtype (.array (.extending (.raw 2))) (.array (.raw 9)) = true ∧
      standard.assignable (.array (.extending (.raw 2))) (.array (.raw 9)) = true ∧
      fitAll standard true formals args = true ∧ fitAll standard false formals args = true := by
  intro formals args
  have hsubtype : standard.subtype (.array (.extending (.raw 2))) (.array (.raw 9)) = true := by
    decide +kernel
  have hfit : fitAll standard true formals args = true := by decide +kernel
  exact ⟨hsubtype, (assignable_of_subtype standard).1 _ _ hsubtype, hfit,
    (assignable_of_subtype standard).2 formals args hfit⟩

end Store

end GenericCalls
