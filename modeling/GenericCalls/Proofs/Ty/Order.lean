import GenericCalls.Store.Basic

/-! # Laws of sameness and order

Sameness is an equivalence that identifies captured wildcards by capture, and the order of types is
a total order up to it: two types stand at one place exactly when they are the same. Hence the
earlier of two types does not depend on which of them is named first. -/

namespace GenericCalls.Ty

/-! ### Sameness -/

mutual
theorem same_comm : (s t : Ty) → same s t = same t s
  | .prim p, t => by cases t <;> simp only [same, Bool.beq_comm]
  | .array s, t => by
    cases t with
    | array t => simp only [same, same_comm s t]
    | _ => simp only [same]
  | .cls c ss, t => by
    cases t with
    | cls d ts => simp only [same, Bool.beq_comm (a := c), sameAll_comm ss ts]
    | _ => simp only [same]
  | .param p, t => by cases t <;> simp only [same, Bool.beq_comm]
  | .wild k none, t => by
    cases t with
    | wild l b => cases b <;> simp only [same, Bool.beq_comm]
    | _ => simp only [same]
  | .wild k (some s), t => by
    cases t with
    | wild l b =>
      cases b with
      | none => rfl
      | some t => simp only [same, Bool.beq_comm (a := k), same_comm s t]
    | _ => simp only [same]
  | .captured i _ _, t => by cases t <;> simp only [same, Bool.beq_comm]
  | .inter ss, t => by
    cases t with
    | inter ts => simp only [same, sameAll_comm ss ts]
    | _ => simp only [same]
  | .null, t => by cases t <;> simp only [same]
  | .unknown, t => by cases t <;> simp only [same]
theorem sameAll_comm : (ss ts : List Ty) → sameAll ss ts = sameAll ts ss
  | [], ts => by cases ts <;> rfl
  | s :: ss, ts => by
    cases ts with
    | nil => rfl
    | cons t ts => simp only [sameAll, same_comm s t, sameAll_comm ss ts]
end

theorem beq_comm (s t : Ty) : (s == t) = (t == s) := same_comm s t

theorem isNull_iff {t : Ty} : t.isNull = true ↔ t = .null := by
  cases t <;> simp [isNull]

theorem isObject_eq_of_beq (s : Store) {t u : Ty} (h : (t == u) = true) :
    s.isObject t = s.isObject u := by
  rw [beq_eq_same] at h
  cases t with
  | cls c ts =>
    cases u with
    | cls d us =>
      simp only [same, Bool.and_eq_true, beq_iff_eq] at h
      simp only [Store.isObject, h.1]
    | _ => simp [same] at h
  | wild k b => cases b <;> cases u <;> simp_all [same, Store.isObject]
  | _ => cases u <;> simp_all [same, Store.isObject]

/-! ### Order -/

theorem index_injective {p q : Primitive} (h : p.index = q.index) : p = q := by
  revert h
  cases p <;> cases q <;> decide

theorem kindIndex_eq_iff {k l : WildcardKind} : kindIndex k = kindIndex l ↔ k = l := by
  cases k <;> cases l <;> decide

mutual
theorem order_swap : (s t : Ty) → (order s t).swap = order t s
  | .prim p, t => by cases t <;> simp only [order, Nat.compare_swap]
  | .array s, t => by
    cases t with
    | array t => simp only [order, order_swap s t]
    | _ => simp only [order, Nat.compare_swap]
  | .cls c ss, t => by
    cases t with
    | cls d ts =>
      simp only [order, Ordering.swap_then, Nat.compare_swap, orderAll_swap ss ts]
    | _ => simp only [order, Nat.compare_swap]
  | .param p, t => by cases t <;> simp only [order, Nat.compare_swap]
  | .wild k none, t => by
    cases t with
    | wild l b =>
      cases b <;> simp only [order, Ordering.swap_then, Nat.compare_swap, Ordering.swap_lt]
    | _ => simp only [order, Nat.compare_swap]
  | .wild k (some s), t => by
    cases t with
    | wild l b =>
      cases b with
      | none => simp only [order, Ordering.swap_then, Nat.compare_swap, Ordering.swap_gt]
      | some t => simp only [order, Ordering.swap_then, Nat.compare_swap, order_swap s t]
    | _ => simp only [order, Nat.compare_swap]
  | .captured i _ _, t => by cases t <;> simp only [order, Nat.compare_swap]
  | .inter ss, t => by
    cases t with
    | inter ts => simp only [order, orderAll_swap ss ts]
    | _ => simp only [order, Nat.compare_swap]
  | .null, t => by cases t <;> simp only [order, Nat.compare_swap]
  | .unknown, t => by cases t <;> simp only [order, Nat.compare_swap]
theorem orderAll_swap : (ss ts : List Ty) → (orderAll ss ts).swap = orderAll ts ss
  | [], ts => by cases ts <;> rfl
  | s :: ss, ts => by
    cases ts with
    | nil => rfl
    | cons t ts => simp only [orderAll, Ordering.swap_then, order_swap s t, orderAll_swap ss ts]
end

mutual
theorem order_eq_iff : (s t : Ty) → (order s t = .eq ↔ same s t = true)
  | .prim p, t => by
    cases t with
    | prim q =>
      simp only [order, same, Nat.compare_eq_eq, beq_iff_eq]
      exact ⟨index_injective, fun h => by rw [h]⟩
    | _ => simp [order, same, form]
  | .array s, t => by
    cases t with
    | array t => simp only [order, same, order_eq_iff s t]
    | _ => simp [order, same, form]
  | .cls c ss, t => by
    cases t with
    | cls d ts =>
      simp only [order, same, Ordering.then_eq_eq, Nat.compare_eq_eq, Bool.and_eq_true, beq_iff_eq,
        orderAll_eq_iff ss ts]
    | _ => simp [order, same, form]
  | .param p, t => by cases t <;> simp [order, same, form]
  | .wild k none, t => by
    cases t with
    | wild l b => cases b <;> simp [order, same, kindIndex_eq_iff]
    | _ => simp [order, same, form]
  | .wild k (some s), t => by
    cases t with
    | wild l b =>
      cases b with
      | none => simp [order, same]
      | some t =>
        simp only [order, same, Ordering.then_eq_eq, Nat.compare_eq_eq, kindIndex_eq_iff,
          Bool.and_eq_true, beq_iff_eq, order_eq_iff s t]
    | _ => simp [order, same, form]
  | .captured i _ _, t => by cases t <;> simp [order, same, form]
  | .inter ss, t => by
    cases t with
    | inter ts => simp only [order, same, orderAll_eq_iff ss ts]
    | _ => simp [order, same, form]
  | .null, t => by cases t <;> simp [order, same, form]
  | .unknown, t => by cases t <;> simp [order, same, form]
theorem orderAll_eq_iff : (ss ts : List Ty) → (orderAll ss ts = .eq ↔ sameAll ss ts = true)
  | [], ts => by cases ts <;> simp [orderAll, sameAll]
  | s :: ss, ts => by
    cases ts with
    | nil => simp [orderAll, sameAll]
    | cons t ts =>
      simp only [orderAll, sameAll, Ordering.then_eq_eq, Bool.and_eq_true, order_eq_iff s t,
        orderAll_eq_iff ss ts]
end

theorem least_comm (s t : Ty) : (least s t == least t s) = true := by
  have hswap := order_swap s t
  unfold least
  rw [← hswap]
  cases hst : order s t with
  | lt => exact same_refl s
  | eq => exact (order_eq_iff s t).1 hst
  | gt => exact same_refl t

end GenericCalls.Ty
