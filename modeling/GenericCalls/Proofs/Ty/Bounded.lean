import GenericCalls.Proofs.Ty.Order
import GenericCalls.Substitution

/-! # Types with sensible bounds

Not every type can stand as a bound or as a component of an intersection. A type is solid when it
can be a declared bound or a component, and regular when all components in it are solid and no
bounds in it are primitive; a wildcard that is not captured may be bounded by a primitive type, as
it is when such a type is put in for a type parameter. Declared supertypes are templates: types that
turn regular when regular types are put in for their parameters. -/

namespace GenericCalls.Ty

/-! ### Induction -/

theorem induct {P : Ty → Prop} (prim : ∀ p, P (.prim p)) (array : ∀ t, P t → P (.array t))
    (cls : ∀ c args, (∀ t ∈ args, P t) → P (.cls c args)) (param : ∀ p, P (.param p))
    (wildOpen : ∀ k, P (.wild k none)) (wild : ∀ k b, P b → P (.wild k (some b)))
    (capturedOpen : ∀ i k, P (.captured i k none))
    (captured : ∀ i k b, P b → P (.captured i k (some b)))
    (inter : ∀ ts, (∀ t ∈ ts, P t) → P (.inter ts)) (null : P .null) (unknown : P .unknown)
    (t : Ty) : P t :=
  Ty.rec
    (motive_1 := P)
    (motive_2 := fun ts => ∀ t ∈ ts, P t)
    (motive_3 := fun b => ∀ t, b = some t → P t)
    prim array cls param
    (fun k b ih => match b with
      | none => wildOpen k
      | some b => wild k b (ih b rfl))
    (fun i k b ih => match b with
      | none => capturedOpen i k
      | some b => captured i k b (ih b rfl))
    inter null unknown
    (fun _ ht => (List.not_mem_nil ht).elim)
    (fun _ _ ht hts _ hu => (List.mem_cons.1 hu).elim (fun e => e ▸ ht) (hts _))
    (fun _ h => nomatch h)
    (fun _ ht _ h => Option.some.inj h ▸ ht)
    t

/-! ### Solid and regular types -/

mutual
/-- Whether a type can be a declared bound or a component of an intersection: it is known, neither
primitive nor the type of `null`, and not a wildcard with a lower bound. -/
def solid : Ty → Bool
  | .prim _ => false
  | .array _ => true
  | .cls _ _ => true
  | .param _ => true
  | .wild _ none => true
  | .wild .upper (some b) => solid b
  | .wild .lower (some _) => false
  | .captured _ _ _ => true
  | .inter ts => solidAll ts
  | .null => false
  | .unknown => false
def solidAll : List Ty → Bool
  | [] => true
  | t :: ts => solid t && solidAll ts
end

/-- Whether a type is neither primitive nor a wildcard around a primitive type. -/
def primFree : Ty → Bool
  | .prim _ => false
  | .wild _ (some b) => !b.isPrim
  | _ => true

mutual
/-- Whether a type is known in all its parts and has no empty intersection, the bounds of its
wildcards pass the test `wild`, those of its captured wildcards the test `capture`, and the
components of its intersections the test `part`. -/
def formed (wild capture part : Ty → Bool) : Ty → Bool
  | .prim _ => true
  | .array t => formed wild capture part t
  | .cls _ args => formedAll wild capture part args
  | .param _ => true
  | .wild _ none => true
  | .wild _ (some b) => wild b && formed wild capture part b
  | .captured _ _ none => true
  | .captured _ _ (some b) => capture b && formed wild capture part b
  | .inter ts => !ts.isEmpty && ts.all part && formedAll wild capture part ts
  | .null => true
  | .unknown => false
def formedAll (wild capture part : Ty → Bool) : List Ty → Bool
  | [] => true
  | t :: ts => formed wild capture part t && formedAll wild capture part ts
end

/-- Whether a type is solid or accepts only itself. -/
def joinable (t : Ty) : Bool := solid t || t.isPrim || t.isNull

/-- Whether a type is known in all its parts, all components in it are solid, and no wildcard in it
is around a wildcard around a primitive type, nor a captured one around a primitive type. -/
def regular (t : Ty) : Bool := formed (fun b => b.isPrim || b.primFree) primFree solid t

def regularAll (ts : List Ty) : Bool :=
  formedAll (fun b => b.isPrim || b.primFree) primFree solid ts

/-- Whether a type is known in all its parts, has no empty intersection, and no primitive type as a
bound or as a component. -/
def proper (t : Ty) : Bool :=
  formed (fun b => !b.isPrim) (fun b => !b.isPrim) (fun u => !u.isPrim) t

theorem solidAll_iff {ts : List Ty} : solidAll ts = true ↔ ∀ t ∈ ts, solid t = true := by
  induction ts with
  | nil => simp [solidAll]
  | cons t ts ih => rw [solidAll, Bool.and_eq_true, ih, List.forall_mem_cons]

theorem formedAll_iff {wild capture part : Ty → Bool} {ts : List Ty} :
    formedAll wild capture part ts = true ↔ ∀ t ∈ ts, formed wild capture part t = true := by
  induction ts with
  | nil => simp [formedAll]
  | cons t ts ih => rw [formedAll, Bool.and_eq_true, ih, List.forall_mem_cons]

theorem regularAll_iff {ts : List Ty} : regularAll ts = true ↔ ∀ t ∈ ts, regular t = true :=
  formedAll_iff

theorem regular_inter_iff {ts : List Ty} :
    regular (.inter ts) = true ↔ ts ≠ [] ∧ ∀ t ∈ ts, solid t = true ∧ regular t = true := by
  rw [regular, formed, Bool.and_eq_true, Bool.and_eq_true, formedAll_iff, List.all_eq_true,
    Bool.not_eq_true', List.isEmpty_eq_false_iff]
  constructor
  · rintro ⟨⟨hne, hsolid⟩, hregular⟩
    exact ⟨hne, fun t ht => ⟨hsolid t ht, hregular t ht⟩⟩
  · rintro ⟨hne, h⟩
    exact ⟨⟨hne, fun t ht => (h t ht).1⟩, fun t ht => (h t ht).2⟩

theorem regular_wild_iff {k : WildcardKind} {b : Ty} :
    regular (.wild k (some b)) = true ↔
      (b.isPrim = true ∨ b.primFree = true) ∧ regular b = true := by
  rw [regular, formed, Bool.and_eq_true, Bool.or_eq_true]
  rfl

theorem regular_captured_iff {i : CaptureId} {k : WildcardKind} {b : Ty} :
    regular (.captured i k (some b)) = true ↔ b.primFree = true ∧ regular b = true := by
  rw [regular, formed, Bool.and_eq_true]
  rfl

theorem primFree_of_solid {t : Ty} (h : t.solid = true) : t.primFree = true := by
  cases t with
  | prim p => cases h
  | wild k b =>
    cases b with
    | none => rfl
    | some b =>
      cases k with
      | lower => cases h
      | upper =>
        cases b with
        | prim p => cases h
        | _ => rfl
  | _ => rfl

theorem isUnknown_of_regular {t : Ty} (h : regular t = true) : t.isUnknown = false := by
  cases t with
  | unknown => cases h
  | _ => rfl

theorem isUnknown_of_solid {t : Ty} (h : solid t = true) : t.isUnknown = false := by
  cases t with
  | unknown => cases h
  | _ => rfl

theorem isReference_of_primFree {t : Ty} (hfree : t.primFree = true) (h : t.regular = true) :
    t.isReference = true := by
  cases t with
  | prim p => cases hfree
  | unknown => cases h
  | _ => rfl

theorem isNull_of_solid {t : Ty} (h : solid t = true) : t.isNull = false := by
  cases t with
  | null => cases h
  | _ => rfl

theorem isPrim_of_solid {t : Ty} (h : solid t = true) : t.isPrim = false := by
  cases t with
  | prim _ => cases h
  | _ => rfl

theorem joinable_of_regular {t : Ty} (h : regular t = true) (hwild : t.isWild = false) :
    joinable t = true := by
  cases t with
  | inter ts =>
    have hsolid : solidAll ts = true :=
      solidAll_iff.2 fun t ht => ((regular_inter_iff.1 h).2 t ht).1
    simp only [joinable, solid, hsolid, Bool.true_or]
  | wild _ _ => cases hwild
  | unknown => cases h
  | _ => rfl

/-- A type inside so many `? extends`. -/
def nested : Nat → Ty → Ty
  | 0, t => t
  | n + 1, t => extending (nested n t)

theorem nested_add (m n : Nat) (t : Ty) : nested (m + n) t = nested m (nested n t) := by
  induction m with
  | zero => rw [Nat.zero_add, nested]
  | succ m ih => rw [Nat.succ_add, nested, ih, nested]

/-! ### Templates -/

/-- Whether a type stays solid whatever is put in for its parameters. -/
def firm : Ty → Bool
  | .prim _ => false
  | .array _ => true
  | .cls _ _ => true
  | .param _ => false
  | .wild _ none => true
  | .wild .upper (some b) => firm b
  | .wild .lower (some _) => false
  | .captured _ _ _ => true
  | .inter _ => true
  | .null => false
  | .unknown => false

mutual
/-- Whether a type becomes regular when regular types are put in for its parameters. -/
def template : Ty → Bool
  | .prim _ => true
  | .array t => template t
  | .cls _ args => templateAll args
  | .param _ => true
  | .wild _ none => true
  | .wild _ (some b) => template b
  | .captured i k b => regular (.captured i k b)
  | .inter ts => !ts.isEmpty && ts.all firm && templateAll ts
  | .null => true
  | .unknown => false
def templateAll : List Ty → Bool
  | [] => true
  | t :: ts => template t && templateAll ts
end

theorem templateAll_iff {ts : List Ty} :
    templateAll ts = true ↔ ∀ t ∈ ts, template t = true := by
  induction ts with
  | nil => simp [templateAll]
  | cons t ts ih => rw [templateAll, Bool.and_eq_true, ih, List.forall_mem_cons]

end GenericCalls.Ty

/-! ### Putting types in -/

namespace GenericCalls.Substitution

open Ty

theorem regular_rewrap (k : WildcardKind) {t : Ty} (h : regular t = true) :
    regular (rewrap k (some t)) = true := by
  cases t with
  | wild inner b =>
    rw [rewrap]
    split
    · exact h
    · rfl
  | prim p => rfl
  | _ => exact regular_wild_iff.2 ⟨.inr rfl, h⟩

theorem solid_rewrap {t : Ty} (h : solid t = true) :
    solid (rewrap .upper (some t)) = true := by
  cases t with
  | wild inner b =>
    rw [rewrap]
    split
    · exact h
    · rfl
  | _ => exact h

/-- What substitution makes of a type: there is a result, it is regular, and solid if the type is
firm. -/
def Fills (f : ParamId → Option Binding) (t : Ty) : Prop :=
  ∃ u, apply f t = some u ∧ regular u = true ∧ (firm t = true → solid u = true)

variable {f : ParamId → Option Binding}

theorem applyAll_fills {ts : List Ty} (h : ∀ t ∈ ts, Fills f t) :
    ∃ us, applyAll f ts = some us ∧ us.length = ts.length ∧ (∀ u ∈ us, regular u = true) ∧
      (ts.all firm = true → ∀ u ∈ us, solid u = true) := by
  induction ts with
  | nil => exact ⟨[], rfl, rfl, nofun, fun _ => nofun⟩
  | cons t ts ih =>
    obtain ⟨u, hu, hregular, hsolid⟩ := h t List.mem_cons_self
    obtain ⟨us, hus, hlength, hregulars, hsolids⟩ :=
      ih fun t' ht' => h t' (List.mem_cons_of_mem t ht')
    refine ⟨u :: us, ?_, ?_, ?_, ?_⟩
    · simp only [applyAll, hu, hus]
    · rw [List.length_cons, List.length_cons, hlength]
    · exact List.forall_mem_cons.2 ⟨hregular, hregulars⟩
    · intro hfirm
      rw [List.all_cons, Bool.and_eq_true] at hfirm
      exact List.forall_mem_cons.2 ⟨hsolid hfirm.1, hsolids hfirm.2⟩

theorem apply_fills (hf : ∀ p b, f p = some b → ∃ t, b = .bound t ∧ regular t = true) (t : Ty)
    (h : template t = true) : Fills f t := by
  induction t using Ty.induct with
  | prim p => exact ⟨.prim p, rfl, rfl, fun hfirm => by cases hfirm⟩
  | array t ih =>
    obtain ⟨u, hu, hregular, _⟩ := ih h
    exact ⟨.array u, by rw [apply, hu]; rfl, hregular, fun _ => rfl⟩
  | cls c args ih =>
    have hargs : ∀ t ∈ args, Fills f t := fun t ht => ih t ht (templateAll_iff.1 h t ht)
    obtain ⟨us, hus, _, hregulars, _⟩ := applyAll_fills hargs
    exact ⟨.cls c us, by rw [apply, hus]; rfl, regularAll_iff.2 hregulars, fun _ => rfl⟩
  | param p =>
    unfold Fills
    rw [apply]
    cases hp : f p with
    | none => exact ⟨.param p, rfl, rfl, fun hfirm => by cases hfirm⟩
    | some b =>
      obtain ⟨t, rfl, hregular⟩ := hf p b hp
      exact ⟨t, rfl, hregular, fun hfirm => by cases hfirm⟩
  | wildOpen k => exact ⟨anything, rfl, rfl, fun _ => rfl⟩
  | wild k b ih =>
    obtain ⟨u, hu, hregular, hsolid⟩ := ih h
    refine ⟨rewrap k (some u), by rw [apply, hu], regular_rewrap k hregular, ?_⟩
    intro hfirm
    cases k with
    | upper => exact solid_rewrap (hsolid hfirm)
    | lower => cases hfirm
  | capturedOpen i k => exact ⟨.captured i k none, rfl, rfl, fun _ => rfl⟩
  | captured i k b ih => exact ⟨.captured i k (some b), rfl, h, fun _ => rfl⟩
  | inter ts ih =>
    rw [template, Bool.and_eq_true, Bool.and_eq_true, Bool.not_eq_true',
      List.isEmpty_eq_false_iff] at h
    obtain ⟨⟨hne, hfirm⟩, htemplates⟩ := h
    have hts : ∀ t ∈ ts, Fills f t := fun t ht => ih t ht (templateAll_iff.1 htemplates t ht)
    obtain ⟨us, hus, hlength, hregulars, hsolids⟩ := applyAll_fills hts
    have hsolid := hsolids hfirm
    refine ⟨.inter us, by rw [apply, hus]; rfl, ?_, fun _ => solidAll_iff.2 hsolid⟩
    refine regular_inter_iff.2 ⟨?_, fun u hu => ⟨hsolid u hu, hregulars u hu⟩⟩
    intro hnil
    rw [hnil, List.length_nil] at hlength
    exact hne (List.length_eq_zero_iff.1 hlength.symm)
  | null => exact ⟨.null, rfl, rfl, fun hfirm => by cases hfirm⟩
  | unknown => cases h

/-! ### Substitutions of type arguments -/

theorem get?_putAll_eq_some {κ ν : Type} [DecidableEq κ] {m : KeyedList κ ν} {bs : List (κ × ν)}
    {p : κ} {b : ν} (h : (m.putAll bs).get? p = some b) : m.get? p = some b ∨ (p, b) ∈ bs := by
  unfold KeyedList.putAll at h
  induction bs generalizing m with
  | nil => exact .inl h
  | cons e bs ih =>
    rcases ih h with hm | hmem
    · rw [KeyedList.get?_put] at hm
      split at hm
      · rename_i heq
        cases hm
        rw [← heq]
        exact .inr List.mem_cons_self
      · exact .inl hm
    · exact .inr (List.mem_cons_of_mem e hmem)

theorem isEmpty_putAll (m : KeyedList ParamId Binding) (bs : List (ParamId × Binding)) :
    (m.putAll bs).isEmpty = (m.isEmpty && bs.isEmpty) := by
  unfold KeyedList.putAll
  induction bs generalizing m with
  | nil => rw [List.foldl_nil, List.isEmpty_nil, Bool.and_true]
  | cons e bs ih =>
    have hput : (m.put e.1 e.2).isEmpty = false := by
      obtain ⟨entries, distinct⟩ := m
      cases entries with
      | nil => rfl
      | cons e' es =>
        unfold KeyedList.put KeyedList.isEmpty KeyedList.putEntry
        split <;> rfl
    rw [List.foldl_cons, ih, hput, List.isEmpty_cons, Bool.and_false, Bool.false_and]

theorem get?_ofArgs {params : List ParamId} {args : List Ty} {p : ParamId} {b : Binding}
    (h : (ofArgs params args).get? p = some b) : p ∈ params ∧ ∃ t ∈ args, b = .bound t := by
  rcases get?_putAll_eq_some h with hempty | hmem
  · cases hempty
  · obtain ⟨i, hi, heq⟩ := List.getElem_of_mem hmem
    rw [List.getElem_zipWith] at heq
    cases heq
    exact ⟨List.getElem_mem _, _, List.getElem_mem _, rfl⟩

theorem isEmpty_ofArgs {params : List ParamId} {args : List Ty} (hne : args ≠ [])
    (hlength : args.length = params.length) : (ofArgs params args).isEmpty = false := by
  show (KeyedList.empty.putAll _).isEmpty = false
  rw [isEmpty_putAll]
  cases args with
  | nil => exact absurd rfl hne
  | cons t args =>
    cases params with
    | nil => cases hlength
    | cons p params => rfl

end GenericCalls.Substitution
