import GenericCalls.Proofs.Ty.Order
import GenericCalls.Substitution

/-! # Later captures

A session that has drawn captures before gives the types of a new session with later captures. A
shift makes every capture in a type later by the same number. It keeps sameness, order and all other
structure of types, and a type without captures stays. -/

namespace GenericCalls

namespace Ty

/-! ### Types without captures -/

mutual
def captureFree : Ty → Bool
  | .prim _ => true
  | .array t => captureFree t
  | .cls _ ts => captureFreeAll ts
  | .param _ => true
  | .wild _ none => true
  | .wild _ (some b) => captureFree b
  | .captured _ _ _ => false
  | .inter ts => captureFreeAll ts
  | .null => true
  | .unknown => true
def captureFreeAll : List Ty → Bool
  | [] => true
  | t :: ts => captureFree t && captureFreeAll ts
end

mutual
theorem eq_of_same : (t u : Ty) → t.captureFree = true → same t u = true → t = u
  | .prim p, u, hf, h => by cases u <;> simp_all [same]
  | .array t, u, hf, h => by
    cases u with
    | array u => rw [eq_of_same t u hf h]
    | _ => simp [same] at h
  | .cls c ts, u, hf, h => by
    cases u with
    | cls d us =>
      simp only [same, Bool.and_eq_true, beq_iff_eq] at h
      rw [h.1, eq_of_sameAll ts us hf h.2]
    | _ => simp [same] at h
  | .param p, u, hf, h => by cases u <;> simp_all [same]
  | .wild k none, u, hf, h => by
    cases u with
    | wild l b => cases b <;> simp_all [same]
    | _ => simp [same] at h
  | .wild k (some t), u, hf, h => by
    cases u with
    | wild l b =>
      cases b with
      | none => simp [same] at h
      | some u =>
        simp only [same, Bool.and_eq_true, beq_iff_eq] at h
        rw [h.1, eq_of_same t u hf h.2]
    | _ => simp [same] at h
  | .captured _ _ _, u, hf, h => by simp [captureFree] at hf
  | .inter ts, u, hf, h => by
    cases u with
    | inter us => rw [eq_of_sameAll ts us hf h]
    | _ => simp [same] at h
  | .null, u, hf, h => by cases u <;> simp_all [same]
  | .unknown, u, hf, h => by cases u <;> simp_all [same]
theorem eq_of_sameAll :
    (ts us : List Ty) → captureFreeAll ts = true → sameAll ts us = true → ts = us
  | [], us, hf, h => by cases us <;> simp_all [sameAll]
  | t :: ts, us, hf, h => by
    cases us with
    | nil => simp [sameAll] at h
    | cons u us =>
      simp only [captureFreeAll, Bool.and_eq_true] at hf
      simp only [sameAll, Bool.and_eq_true] at h
      rw [eq_of_same t u hf.1 h.1, eq_of_sameAll ts us hf.2 h.2]
end

theorem captureFreeAll_iff {ts : List Ty} :
    captureFreeAll ts = true ↔ ∀ t ∈ ts, t.captureFree = true := by
  induction ts with
  | nil => simp [captureFreeAll]
  | cons t ts ih => rw [captureFreeAll, Bool.and_eq_true, ih, List.forall_mem_cons]

theorem eq_some_of_same {x : Option Ty} {t : Ty} (hfree : t.captureFree = true)
    (h : x.any (same t) = true) : x = some t := by
  cases x with
  | none => cases h
  | some u => rw [eq_of_same t u hfree h]

theorem eq_some_of_sameAll {x : Option (List Ty)} {ts : List Ty}
    (hfree : captureFreeAll ts = true) (h : x.any (sameAll ts) = true) : x = some ts := by
  cases x with
  | none => cases h
  | some us => rw [eq_of_sameAll ts us hfree h]

/-! ### Shifts -/

mutual
def shift (n : Nat) : Ty → Ty
  | .prim p => .prim p
  | .array t => .array (shift n t)
  | .cls c ts => .cls c (shiftAll n ts)
  | .param p => .param p
  | .wild k none => .wild k none
  | .wild k (some b) => .wild k (some (shift n b))
  | .captured i k none => .captured (i + n) k none
  | .captured i k (some b) => .captured (i + n) k (some (shift n b))
  | .inter ts => .inter (shiftAll n ts)
  | .null => .null
  | .unknown => .unknown
def shiftAll (n : Nat) : List Ty → List Ty
  | [] => []
  | t :: ts => shift n t :: shiftAll n ts
end

variable (n : Nat)

@[simp] theorem shiftAll_eq_map (ts : List Ty) : shiftAll n ts = ts.map (shift n) := by
  induction ts with
  | nil => rfl
  | cons t ts ih => simp [shiftAll, ih]

@[simp] theorem shift_wild (k : WildcardKind) (b : Option Ty) :
    shift n (.wild k b) = .wild k (b.map (shift n)) := by
  cases b <;> rfl

@[simp] theorem shift_captured (i : CaptureId) (k : WildcardKind) (b : Option Ty) :
    shift n (.captured i k b) = .captured (i + n) k (b.map (shift n)) := by
  cases b <;> rfl

mutual
theorem shift_of_captureFree : (t : Ty) → t.captureFree = true → shift n t = t
  | .prim _, _ => rfl
  | .array t, h => by rw [shift, shift_of_captureFree t h]
  | .cls c ts, h => by rw [shift, shiftAll_of_captureFree ts h]
  | .param _, _ => rfl
  | .wild _ none, _ => rfl
  | .wild _ (some b), h => by rw [shift, shift_of_captureFree b h]
  | .inter ts, h => by rw [shift, shiftAll_of_captureFree ts h]
  | .null, _ => rfl
  | .unknown, _ => rfl
theorem shiftAll_of_captureFree :
    (ts : List Ty) → captureFreeAll ts = true → shiftAll n ts = ts
  | [], _ => rfl
  | t :: ts, h => by
    simp only [captureFreeAll, Bool.and_eq_true] at h
    rw [shiftAll, shift_of_captureFree t h.1, shiftAll_of_captureFree ts h.2]
end

/-! ### Forms -/

section
attribute [local simp] shift

variable (p : ParamId) (t : Ty)

@[simp] theorem isPrim_shift : (t.shift n).isPrim = t.isPrim := by
  cases t <;> simp [isPrim]

@[simp] theorem isWild_shift : (t.shift n).isWild = t.isWild := by
  cases t <;> simp [isWild]

@[simp] theorem isNull_shift : (t.shift n).isNull = t.isNull := by
  cases t <;> simp [isNull]

@[simp] theorem isUnknown_shift : (t.shift n).isUnknown = t.isUnknown := by
  cases t <;> simp [isUnknown]

@[simp] theorem isReference_shift : (t.shift n).isReference = t.isReference := by
  cases t <;> simp [isReference]

@[simp] theorem isParam_shift : (t.shift n).isParam p = t.isParam p := by
  cases t <;> simp [isParam]

@[simp] theorem isVariable_shift : (t.shift n).isVariable = t.isVariable := by
  cases t <;> simp [isVariable]

@[simp] theorem reopen_shift : (t.shift n).reopen = t.reopen.shift n := by
  cases t <;> simp [reopen]

@[simp] theorem component?_shift : (t.shift n).component? = t.component?.map (shift n) := by
  cases t <;> simp [component?]

end

mutual
@[simp] theorem mentions_shift (p : ParamId) : (t : Ty) → (t.shift n).mentions p = t.mentions p
  | .prim _ => rfl
  | .array t => mentions_shift p t
  | .cls _ ts => mentionsAny_shift p ts
  | .param _ => rfl
  | .wild _ none => rfl
  | .wild _ (some b) => mentions_shift p b
  | .captured _ _ none => rfl
  | .captured _ _ (some b) => mentions_shift p b
  | .inter ts => mentionsAny_shift p ts
  | .null => rfl
  | .unknown => rfl
theorem mentionsAny_shift (p : ParamId) :
    (ts : List Ty) → mentionsAny p (shiftAll n ts) = mentionsAny p ts
  | [] => rfl
  | t :: ts => by rw [shiftAll, mentionsAny, mentionsAny, mentions_shift p t, mentionsAny_shift p ts]
end

mutual
@[simp] theorem size_shift : (t : Ty) → (t.shift n).size = t.size
  | .prim _ => rfl
  | .array t => by rw [shift, size, size, size_shift t]
  | .cls _ ts => by rw [shift, size, size, sizeAll_shift ts]
  | .param _ => rfl
  | .wild _ none => rfl
  | .wild _ (some b) => by rw [shift, size, size, size_shift b]
  | .captured _ _ none => rfl
  | .captured _ _ (some b) => by rw [shift, size, size, size_shift b]
  | .inter ts => by rw [shift, size, size, sizeAll_shift ts]
  | .null => rfl
  | .unknown => rfl
theorem sizeAll_shift : (ts : List Ty) → sizeAll (shiftAll n ts) = sizeAll ts
  | [] => rfl
  | t :: ts => by rw [shiftAll, sizeAll, sizeAll, size_shift t, sizeAll_shift ts]
end

/-! ### Order and sameness -/

theorem compare_add_right (i j n : Nat) : compare (i + n) (j + n) = compare i j := by
  rw [Nat.compare_eq_ite_lt, Nat.compare_eq_ite_lt]
  simp

mutual
@[simp] theorem order_shift : (t u : Ty) → order (t.shift n) (u.shift n) = order t u
  | .prim p, u => by cases u <;> simp [shift, order, form]
  | .array t, u => by
    cases u with
    | array u => simp only [shift, order, order_shift t u]
    | _ => simp [shift, order, form]
  | .cls c ts, u => by
    cases u with
    | cls d us => simp only [shift, order, orderAll_shift ts us]
    | _ => simp [shift, order, form]
  | .param p, u => by cases u <;> simp [shift, order, form]
  | .wild k none, u => by
    cases u with
    | wild l b => cases b <;> simp [shift, order]
    | _ => simp [shift, order, form]
  | .wild k (some t), u => by
    cases u with
    | wild l b =>
      cases b with
      | none => simp [shift, order]
      | some u => simp only [shift, order, order_shift t u]
    | _ => simp [shift, order, form]
  | .captured i _ _, u => by
    cases u with
    -- Captures compare by their ids alone, and all ids move by the same number.
    | captured j _ _ => simp only [shift_captured, order, compare_add_right]
    | _ => simp [shift, order, form]
  | .inter ts, u => by
    cases u with
    | inter us => simp only [shift, order, orderAll_shift ts us]
    | _ => simp [shift, order, form]
  | .null, u => by cases u <;> simp [shift, order, form]
  | .unknown, u => by cases u <;> simp [shift, order, form]
theorem orderAll_shift :
    (ts us : List Ty) → orderAll (shiftAll n ts) (shiftAll n us) = orderAll ts us
  | [], us => by cases us <;> rfl
  | t :: ts, us => by
    cases us with
    | nil => rfl
    | cons u us => simp only [shiftAll, orderAll, order_shift t u, orderAll_shift ts us]
end

@[simp] theorem beq_shift (t u : Ty) : (t.shift n == u.shift n) = (t == u) := by
  rw [Bool.eq_iff_iff, beq_eq_same, beq_eq_same, ← order_eq_iff, ← order_eq_iff, order_shift]

@[simp] theorem least_shift (t u : Ty) : least (t.shift n) (u.shift n) = (least t u).shift n := by
  unfold least
  rw [order_shift]
  split <;> rfl

end Ty

/-! ### Class types and wildcards -/

def ClassTy.shift (n : Nat) (c : ClassTy) : ClassTy := ⟨c.id, c.args.map (Ty.shift n)⟩

def Wildcard.shift (n : Nat) (w : Wildcard) : Wildcard := ⟨w.kind, w.bound.map (Ty.shift n)⟩

section
variable (n : Nat) (c : ClassTy) (w : Wildcard)

@[simp] theorem ClassTy.id_shift : (c.shift n).id = c.id := rfl

@[simp] theorem ClassTy.args_shift : (c.shift n).args = c.args.map (Ty.shift n) := rfl

@[simp] theorem ClassTy.shift_raw (d : ClassId) : (ClassTy.raw d).shift n = .raw d := rfl

@[simp] theorem ClassTy.toTy_shift : (c.shift n).toTy = c.toTy.shift n := by
  simp [toTy, Ty.shift]

theorem ClassTy.shift_of_captureFree (h : Ty.captureFreeAll c.args = true) : c.shift n = c := by
  rw [ClassTy.shift, ← Ty.shiftAll_eq_map, Ty.shiftAll_of_captureFree n _ h]

@[simp] theorem Wildcard.extendsBound?_shift :
    (w.shift n).extendsBound? = w.extendsBound?.map (Ty.shift n) := by
  obtain ⟨k, b⟩ := w
  cases k <;> rfl

@[simp] theorem Wildcard.superBound?_shift :
    (w.shift n).superBound? = w.superBound?.map (Ty.shift n) := by
  obtain ⟨k, b⟩ := w
  cases k <;> rfl

@[simp] theorem Ty.openWildcard?_shift (t : Ty) :
    (t.shift n).openWildcard? = t.openWildcard?.map (Wildcard.shift n) := by
  cases t <;> simp [shift, openWildcard?, Wildcard.shift]

end

/-! ### Bindings -/

def KeyedList.mapValues {κ ν : Type} (f : ν → ν) (m : KeyedList κ ν) : KeyedList κ ν :=
  ⟨m.entries.map fun e => (e.1, f e.2), by simpa [List.map_map, Function.comp_def] using m.distinct⟩

namespace KeyedList

variable {κ ν : Type} [DecidableEq κ] (f : ν → ν) (m : KeyedList κ ν) (k : κ) (x : ν)

omit [DecidableEq κ] in
theorem ext_entries {l m : KeyedList κ ν} (h : l.entries = m.entries) : l = m := by
  cases l
  cases m
  cases h
  rfl

@[simp] theorem get?_mapValues : (m.mapValues f).get? k = (m.get? k).map f :=
  lookup_map f k m.entries

@[simp] theorem put_mapValues : (m.mapValues f).put k (f x) = (m.put k x).mapValues f := by
  have hput (l : List (κ × ν)) : putEntry k (f x) (l.map fun e => (e.1, f e.2)) =
      (putEntry k x l).map fun e => (e.1, f e.2) := by
    induction l with
    | nil => rfl
    | cons e l ih =>
      rw [List.map_cons, putEntry, putEntry, ih]
      split <;> rfl
  exact ext_entries (hput m.entries)

@[simp] theorem putAll_mapValues (l : List (κ × ν)) :
    (m.mapValues f).putAll (l.map fun e => (e.1, f e.2)) = (m.putAll l).mapValues f := by
  unfold putAll
  induction l generalizing m with
  | nil => rfl
  | cons e l ih => rw [List.map_cons, List.foldl_cons, List.foldl_cons, put_mapValues, ih]

end KeyedList

def Binding.shift (n : Nat) : Binding → Binding
  | .bound t => .bound (t.shift n)
  | .erased => .erased

namespace Substitution

def shift (n : Nat) (σ : Substitution) : Substitution := ⟨σ.bindings.mapValues (Binding.shift n)⟩

variable (n : Nat) (σ : Substitution) (p : ParamId)

@[simp] theorem get?_shift : (σ.shift n).get? p = (σ.get? p).map (Binding.shift n) :=
  KeyedList.get?_mapValues ..

@[simp] theorem isEmpty_shift : (σ.shift n).isEmpty = σ.isEmpty := by
  simp [shift, isEmpty, KeyedList.mapValues, KeyedList.isEmpty]

@[simp] theorem put_shift (b : Binding) : (σ.shift n).put p (b.shift n) = (σ.put p b).shift n :=
  congrArg Substitution.mk (KeyedList.put_mapValues ..)

@[simp] theorem put_erased_shift : (σ.shift n).put p .erased = (σ.put p .erased).shift n :=
  σ.put_shift n p .erased

@[simp] theorem putTy_shift (t : Ty) : (σ.shift n).putTy p (t.shift n) = (σ.putTy p t).shift n :=
  σ.put_shift n p (.bound t)

@[simp] theorem eraseAll_shift (ps : List ParamId) :
    (σ.shift n).eraseAll ps = (σ.eraseAll ps).shift n := by
  unfold eraseAll
  induction ps generalizing σ with
  | nil => rfl
  | cons p ps ih => rw [List.foldl_cons, List.foldl_cons, put_erased_shift, ih]

@[simp] theorem merge_shift (τ : Substitution) :
    (σ.shift n).merge (τ.shift n) = (σ.merge τ).shift n :=
  congrArg Substitution.mk (KeyedList.putAll_mapValues ..)

@[simp] theorem ofArgs_shift (ps : List ParamId) (ts : List Ty) :
    ofArgs ps (ts.map (Ty.shift n)) = (ofArgs ps ts).shift n := by
  have hpairs : List.zipWith (fun p t => (p, Binding.bound t)) ps (ts.map (Ty.shift n)) =
      (List.zipWith (fun p t => (p, Binding.bound t)) ps ts).map fun e => (e.1, e.2.shift n) := by
    rw [List.zipWith_map_right, List.map_zipWith]
    rfl
  unfold ofArgs ofList
  rw [hpairs]
  exact congrArg Substitution.mk (KeyedList.putAll_mapValues (Binding.shift n) .empty _)

@[simp] theorem rewrap_shift (k : WildcardKind) (b : Option Ty) :
    rewrap k (b.map (Ty.shift n)) = (rewrap k b).shift n := by
  cases b with
  | none => rfl
  | some t =>
    cases t with
    | wild l b =>
      simp only [Option.map_some, Ty.shift_wild, rewrap]
      split
      · rw [Ty.shift_wild]
      · rfl
    | captured i l b => simp [rewrap]
    | _ => rfl

mutual
theorem apply_shift (t : Ty) :
    apply (σ.shift n).get? (t.shift n) = (apply σ.get? t).map (Ty.shift n) := by
  cases t with
  | array t => simp [Ty.shift, apply, apply_shift t, Function.comp_def]
  | cls c ts =>
    have hargs := applyAll_shift ts
    rw [Ty.shift, apply, apply, hargs]
    cases applyAll σ.get? ts <;> simp [Ty.shift]
  | param p =>
    rw [Ty.shift, apply, apply, get?_shift]
    rcases σ.get? p with _ | _ | _ <;> rfl
  | wild k b =>
    cases b with
    | none => rfl
    | some b => rw [Ty.shift, apply, apply, apply_shift b, rewrap_shift, Option.map_some]
  | captured i k b => rw [Ty.shift_captured, apply, apply, Option.map_some, Ty.shift_captured]
  | inter ts =>
    rw [Ty.shift, apply, apply, applyAll_shift ts, Option.map_map, Option.map_map]
    simp [Function.comp_def, Ty.shift]
  | _ => rfl
theorem applyAll_shift (ts : List Ty) :
    applyAll (σ.shift n).get? (Ty.shiftAll n ts) =
      (applyAll σ.get? ts).map (List.map (Ty.shift n)) := by
  cases ts with
  | nil => rfl
  | cons t ts =>
    rw [Ty.shiftAll, applyAll, applyAll, apply_shift t, applyAll_shift ts]
    cases apply σ.get? t <;> cases applyAll σ.get? ts <;> rfl
end

@[simp] theorem substitute_shift (t : Ty) :
    (σ.shift n).substitute (t.shift n) = (σ.substitute t).map (Ty.shift n) := by
  unfold substitute
  rw [isEmpty_shift, apply_shift]
  split <;> rfl

@[simp] theorem substituteClass_shift (c : ClassTy) :
    (σ.shift n).substituteClass (c.shift n) = (σ.substituteClass c).map (ClassTy.shift n) := by
  have hargs := σ.applyAll_shift n c.args
  rw [Ty.shiftAll_eq_map] at hargs
  unfold substituteClass
  rw [isEmpty_shift, ClassTy.args_shift, hargs, Option.map_map]
  split
  · rfl
  · rw [Option.map_map]
    rfl

theorem substitute_shift_of_captureFree {t : Ty} (h : t.captureFree = true) :
    (σ.shift n).substitute t = (σ.substitute t).map (Ty.shift n) := by
  rw [← substitute_shift, Ty.shift_of_captureFree n t h]

theorem substituteClass_shift_of_captureFree {c : ClassTy} (h : Ty.captureFreeAll c.args = true) :
    (σ.shift n).substituteClass c = (σ.substituteClass c).map (ClassTy.shift n) := by
  rw [← substituteClass_shift, ClassTy.shift_of_captureFree n c h]

end Substitution

end GenericCalls
