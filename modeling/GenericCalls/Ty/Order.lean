import GenericCalls.Ty.Basic

/-! # Sameness and order of types

Two types are the same when they agree in every part, with one exception: a captured wildcard is
known by its capture alone, whatever its bound. The order of types is structural and exists to break
ties in one way only. -/

namespace GenericCalls.Ty

/-! ### Sameness -/

mutual
/-- Whether two types are the same, captured wildcards compared by capture alone. -/
def same : Ty → Ty → Bool
  | .prim p, .prim q => p == q
  | .array s, .array t => same s t
  | .cls c ss, .cls d ts => c == d && sameAll ss ts
  | .param p, .param q => p == q
  | .wild k none, .wild l none => k == l
  | .wild k (some s), .wild l (some t) => k == l && same s t
  | .captured i _ _, .captured j _ _ => i == j
  | .inter ss, .inter ts => sameAll ss ts
  | .null, .null => true
  | .unknown, .unknown => true
  | _, _ => false
def sameAll : List Ty → List Ty → Bool
  | [], [] => true
  | s :: ss, t :: ts => same s t && sameAll ss ts
  | _, _ => false
end

instance : BEq Ty := ⟨same⟩

theorem beq_eq_same (s t : Ty) : (s == t) = same s t := rfl

mutual
theorem same_refl : (t : Ty) → same t t = true
  | .prim _ => by simp [same]
  | .array t => by simp [same, same_refl t]
  | .cls _ ts => by simp [same, sameAll_refl ts]
  | .param _ => by simp [same]
  | .wild _ none => by simp [same]
  | .wild _ (some t) => by simp [same, same_refl t]
  | .captured _ _ _ => by simp [same]
  | .inter ts => by simp [same, sameAll_refl ts]
  | .null => rfl
  | .unknown => rfl
theorem sameAll_refl : (ts : List Ty) → sameAll ts ts = true
  | [] => rfl
  | t :: ts => by simp [sameAll, same_refl t, sameAll_refl ts]
end

instance : ReflBEq Ty := ⟨fun {t} => same_refl t⟩

/-! ### Order -/

/-- The place of a type's form among the forms. -/
def form : Ty → Nat
  | .prim _ => 0
  | .array _ => 1
  | .cls _ _ => 2
  | .param _ => 3
  | .wild _ _ => 4
  | .captured _ _ _ => 5
  | .inter _ => 6
  | .null => 7
  | .unknown => 8

def kindIndex : WildcardKind → Nat
  | .upper => 0
  | .lower => 1

mutual
/-- The order of types: by form, then by number and parts; `?` stands before every bounded wildcard
of its side, and captured wildcards are ordered by capture alone. -/
def order : Ty → Ty → Ordering
  | .prim p, .prim q => compare p.index q.index
  | .array s, .array t => order s t
  | .cls c ss, .cls d ts => (compare c d).then (orderAll ss ts)
  | .param p, .param q => compare p q
  | .wild k none, .wild l none => compare (kindIndex k) (kindIndex l)
  | .wild k none, .wild l (some _) => (compare (kindIndex k) (kindIndex l)).then .lt
  | .wild k (some _), .wild l none => (compare (kindIndex k) (kindIndex l)).then .gt
  | .wild k (some s), .wild l (some t) => (compare (kindIndex k) (kindIndex l)).then (order s t)
  | .captured i _ _, .captured j _ _ => compare i j
  | .inter ss, .inter ts => orderAll ss ts
  | s, t => compare s.form t.form
def orderAll : List Ty → List Ty → Ordering
  | [], [] => .eq
  | [], _ :: _ => .lt
  | _ :: _, [] => .gt
  | s :: ss, t :: ts => (order s t).then (orderAll ss ts)
end

def least (s t : Ty) : Ty := if (order s t).isLE then s else t

end GenericCalls.Ty
