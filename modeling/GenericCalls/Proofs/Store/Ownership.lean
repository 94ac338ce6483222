import GenericCalls.Store.Basic
import Mathlib.Logic.Relation

/-! # Owners of type parameters

A store is built by declaring and completing. However it is built, a class or method lists exactly
the type parameters that were declared for it, once each and in order, so that no parameter is
listed by two declarations; and what was declared stays what it is. -/

namespace GenericCalls

def Decl.params : Decl → List ParamId
  | .cls d => d.params
  | .method d => d.typeParams
  | .param _ => []

def Decl.asOwner? (i : Nat) : Decl → Option ParamOwner
  | .cls _ => some (.cls i)
  | .method _ => some (.method i)
  | .param _ => none

def Decl.owner? : Decl → Option ParamOwner
  | .param d => some d.owner
  | _ => none

def Decl.addParam (p : ParamId) : Decl → Decl
  | .cls d => .cls { d with params := d.params ++ [p] }
  | .method d => .method { d with typeParams := d.typeParams ++ [p] }
  | .param d => .param d

@[simp] theorem Decl.asOwner?_addParam (p : ParamId) (d : Decl) (i : Nat) :
    (d.addParam p).asOwner? i = d.asOwner? i := by
  cases d <;> rfl

@[simp] theorem Decl.owner?_addParam (p : ParamId) (d : Decl) :
    (d.addParam p).owner? = d.owner? := by
  cases d <;> rfl

theorem Decl.params_addParam {d : Decl} {i : Nat} {o : ParamOwner} (h : d.asOwner? i = some o)
    (p : ParamId) : (d.addParam p).params = d.params ++ [p] := by
  cases d with
  | param d => cases h
  | _ => rfl

namespace Store

/-- One store comes from another by declaring or completing something. -/
inductive Step : Store → Store → Prop where
  | declareClass (s : Store) (name : String) (kind : ClassKind) :
      Step s (s.declareClass name kind).1
  | declareParam (s : Store) (name : String) (owner : ParamOwner) :
      Step s (s.declareParam name owner).1
  | declareMethod (s : Store) (name : String) (kind : CallableKind) (owner : Option ClassId) :
      Step s (s.declareMethod name kind owner).1
  | addSupertype (s : Store) (c : ClassId) (supertype : ClassTy) :
      Step s (s.addSupertype c supertype)
  | setBounds (s : Store) (p : ParamId) (bounds : List Ty) : Step s (s.setBounds p bounds)
  | setSignature (s : Store) (m : MethodId) (formals : List Formal) (returns : Ty)
      (variadic : Bool) : Step s (s.setSignature m formals returns variadic)
  | setVisibility (s : Store) (m : MethodId) (visibility : Visibility) :
      Step s (s.setVisibility m visibility)

/-- One store comes from another by declaring and completing. -/
abbrev Built : Store → Store → Prop := Relation.ReflTransGen Step

variable {s s' : Store} {i : Nat} {d : Decl}

theorem le_size_of_decl? (h : s.decl? i = some d) : i ≤ s.size := by
  cases i with
  | zero => exact Nat.zero_le _
  | succ i => exact (Array.getElem?_eq_some_iff.1 h).1

/-! ### What a step makes of declarations -/

/-- One declaration completes another: it lists the same parameters, and is the same as owner and as
parameter. -/
structure Completes (d d' : Decl) : Prop where
  params : d'.params = d.params
  asOwner (i : Nat) : d'.asOwner? i = d.asOwner? i
  owner : d'.owner? = d.owner?

theorem Completes.refl (d : Decl) : Completes d d := ⟨rfl, fun _ => rfl, rfl⟩

theorem decl?_modify_completes {f : Decl → Decl} (hf : ∀ d, Completes d (f d)) (s : Store)
    (j i : Nat) : ∃ g, (s.modify f j).decl? i = (s.decl? i).map g ∧ ∀ d, Completes d (g d) := by
  rw [decl?_modify]
  split
  · exact ⟨f, rfl, hf⟩
  · exact ⟨id, by simp, .refl⟩

/-- A type parameter is declared after all others, and its owner lists it last. -/
theorem decl?_declareParam (s : Store) (name : String) (owner : ParamOwner) (i : Nat) :
    (s.declareParam name owner).1.decl? i =
      if i = s.size + 1 then some (.param { name, owner })
      else (s.decl? i).map fun d =>
        if d.asOwner? i = some owner then d.addParam (s.size + 1) else d := by
  have hnew : (s.declare (.param { name, owner })).2 = s.size + 1 := rfl
  cases owner with
  | cls c | method c =>
    simp only [declareParam, modifyClass, modifyMethod, decl?_modify, decl?_declare, hnew]
    by_cases hi : i = s.size + 1
    · simp [hi]
    · by_cases hc : c = i
      · subst hc
        simp only [hi, if_false, if_true]
        cases s.decl? c with
        | none => rfl
        | some d => cases d <;> simp [Decl.asOwner?, Decl.addParam]
      · have hc' : ¬i = c := fun e => hc e.symm
        simp only [hi, hc, if_false]
        cases s.decl? i with
        | none => rfl
        | some d => cases d <;> simp [Decl.asOwner?, hc']

/-- What a step does: it declares something that neither is nor lists a type parameter, or declares
a type parameter, or completes what is declared. -/
theorem Step.cases (h : Step s s') :
    (∃ d, d.params = [] ∧ d.owner? = none ∧
      ∀ i, s'.decl? i = if i = s.size + 1 then some d else s.decl? i) ∨
    (∃ name owner, s' = (s.declareParam name owner).1) ∨
    ∀ i, ∃ g, s'.decl? i = (s.decl? i).map g ∧ ∀ d, Completes d (g d) := by
  cases h with
  | declareClass name kind => exact .inl ⟨_, rfl, rfl, decl?_declare s _⟩
  | declareMethod name kind owner => exact .inl ⟨_, rfl, rfl, decl?_declare s _⟩
  | declareParam name owner => exact .inr (.inl ⟨name, owner, rfl⟩)
  | addSupertype | setBounds | setSignature | setVisibility =>
    refine .inr (.inr (decl?_modify_completes (fun d => ?_) s _))
    cases d <;> exact ⟨rfl, fun _ => rfl, rfl⟩

/-- No step changes what is an owner of parameters or who owns a parameter. -/
theorem Step.keeps (h : Step s s') (hd : s.decl? i = some d) :
    ∃ d', s'.decl? i = some d' ∧ d'.asOwner? i = d.asOwner? i ∧ d'.owner? = d.owner? := by
  have hi : i ≠ s.size + 1 := by
    have := le_size_of_decl? hd
    omega
  rcases h.cases with ⟨e, _, _, hdecl⟩ | ⟨name, owner, rfl⟩ | hdecl
  · exact ⟨d, by rw [hdecl, if_neg hi, hd], rfl, rfl⟩
  · rw [decl?_declareParam, if_neg hi, hd]
    refine ⟨_, rfl, ?_⟩
    dsimp only
    split
    · exact ⟨d.asOwner?_addParam _ i, d.owner?_addParam _⟩
    · exact ⟨rfl, rfl⟩
  · obtain ⟨g, hg, hcompletes⟩ := hdecl i
    exact ⟨g d, by rw [hg, hd]; rfl, (hcompletes d).asOwner i, (hcompletes d).owner⟩

theorem Built.keeps (h : Built s s') (hd : s.decl? i = some d) :
    ∃ d', s'.decl? i = some d' ∧ d'.asOwner? i = d.asOwner? i ∧ d'.owner? = d.owner? := by
  induction h with
  | refl => exact ⟨d, hd, rfl, rfl⟩
  | tail _ hstep ih =>
    obtain ⟨e, he, hown, howner⟩ := ih
    obtain ⟨f, hf, hown', howner'⟩ := hstep.keeps he
    exact ⟨f, hf, hown'.trans hown, howner'.trans howner⟩

theorem method?_isSome_iff : (s.method? i).isSome = true ↔
    ∃ d, s.decl? i = some d ∧ d.asOwner? i = some (.method i) := by
  unfold method?
  cases s.decl? i with
  | none => simp
  | some d => cases d <;> simp [Decl.asOwner?]

theorem class?_isSome_iff : (s.class? i).isSome = true ↔
    ∃ d, s.decl? i = some d ∧ d.asOwner? i = some (.cls i) := by
  unfold class?
  cases s.decl? i with
  | none => simp
  | some d => cases d <;> simp [Decl.asOwner?]

theorem Built.class?_isSome (h : Built s s') (hc : (s.class? i).isSome = true) :
    (s'.class? i).isSome = true := by
  obtain ⟨d, hd, hown⟩ := class?_isSome_iff.1 hc
  obtain ⟨d', hd', hown', _⟩ := h.keeps hd
  exact class?_isSome_iff.2 ⟨d', hd', hown'.trans hown⟩

theorem Built.method?_isSome (h : Built s s') (hm : (s.method? i).isSome = true) :
    (s'.method? i).isSome = true := by
  obtain ⟨d, hd, hown⟩ := method?_isSome_iff.1 hm
  obtain ⟨d', hd', hown', _⟩ := h.keeps hd
  exact method?_isSome_iff.2 ⟨d', hd', hown'.trans hown⟩

/-! ### Lists of type parameters -/

def ownerOf? (s : Store) (p : ParamId) : Option ParamOwner := (s.decl? p).bind Decl.owner?

/-- Each declaration lists in order the type parameters that were declared for it after itself. -/
structure Owned (s : Store) : Prop where
  increasing : ∀ i d, s.decl? i = some d → d.params.Pairwise (· < ·)
  listed : ∀ i d o, s.decl? i = some d → d.asOwner? i = some o →
    ∀ p, p ∈ d.params ↔ i < p ∧ s.ownerOf? p = some o

theorem decl?_eq_none (h : s.size < i) : s.decl? i = none := by
  cases hd : s.decl? i with
  | none => rfl
  | some d => exact absurd (le_size_of_decl? hd) (by omega)

theorem ownerOf?_eq_none {p : ParamId} (h : s.size < p) : s.ownerOf? p = none := by
  unfold ownerOf?
  rw [decl?_eq_none h]
  rfl

theorem ownerOf?_declareParam (s : Store) (name : String) (owner : ParamOwner) (p : ParamId) :
    (s.declareParam name owner).1.ownerOf? p =
      if p = s.size + 1 then some owner else s.ownerOf? p := by
  unfold ownerOf?
  rw [decl?_declareParam]
  split
  · rfl
  · cases s.decl? p with
    | none => rfl
    | some d =>
      simp only [Option.map_some, Option.bind_some]
      split
      · exact d.owner?_addParam _
      · rfl

theorem Owned.declareParam (h : s.Owned) (name : String) (owner : ParamOwner) :
    (s.declareParam name owner).1.Owned := by
  refine ⟨fun i d hd => ?_, fun i d o hd ho p => ?_⟩
  · rw [decl?_declareParam] at hd
    split at hd
    · cases hd
      exact .nil
    · obtain ⟨e, he, rfl⟩ := Option.map_eq_some_iff.1 hd
      split
      · rename_i hown
        rw [Decl.params_addParam hown]
        refine List.pairwise_append.2 ⟨h.increasing i e he, by simp, fun p hp q hq => ?_⟩
        obtain ⟨_, howner⟩ := (h.listed i e owner he hown p).1 hp
        obtain ⟨f, hf, _⟩ := Option.bind_eq_some_iff.1 howner
        rw [List.mem_singleton.1 hq]
        exact Nat.lt_succ_of_le (le_size_of_decl? hf)
      · exact h.increasing i e he
  · rw [decl?_declareParam] at hd
    rw [ownerOf?_declareParam]
    split at hd
    · cases hd
      cases ho
    · obtain ⟨e, he, rfl⟩ := Option.map_eq_some_iff.1 hd
      have hi := le_size_of_decl? he
      have hlisted := h.listed i e o he
      split at ho
      · rename_i hown
        rw [Decl.asOwner?_addParam, hown] at ho
        cases ho
        rw [if_pos hown, Decl.params_addParam hown, List.mem_append, List.mem_singleton,
          hlisted hown p]
        by_cases hp : p = s.size + 1
        · simp only [hp, if_true, or_true, and_true, true_iff]
          omega
        · simp [hp]
      · rename_i hown
        rw [if_neg hown, hlisted ho p]
        by_cases hp : p = s.size + 1
        · have hne : owner ≠ o := fun e => hown (e ▸ ho)
          simp [hp, ownerOf?_eq_none (Nat.lt_succ_self s.size), hne]
        · simp [hp]

theorem Owned.of_declared (h : s.Owned) {e : Decl} (hparams : e.params = [])
    (howner : e.owner? = none)
    (hdecl : ∀ i, s'.decl? i = if i = s.size + 1 then some e else s.decl? i) : s'.Owned := by
  have hownerOf (p : ParamId) : s'.ownerOf? p = s.ownerOf? p := by
    unfold ownerOf?
    rw [hdecl]
    split
    · rw [decl?_eq_none (by omega)]
      exact howner
    · rfl
  refine ⟨fun i d hd => ?_, fun i d o hd ho p => ?_⟩
  · rw [hdecl] at hd
    split at hd
    · cases hd
      rw [hparams]
      exact .nil
    · exact h.increasing i d hd
  · rw [hownerOf]
    rw [hdecl] at hd
    split at hd
    · rename_i hi
      cases hd
      rw [hparams]
      simp only [List.not_mem_nil, false_iff, not_and]
      intro hp
      rw [ownerOf?_eq_none (Nat.lt_trans (hi ▸ Nat.lt_succ_self _) hp)]
      nofun
    · exact h.listed i d o hd ho p

theorem Owned.of_completed (h : s.Owned)
    (hdecl : ∀ i, ∃ g, s'.decl? i = (s.decl? i).map g ∧ ∀ d, Completes d (g d)) : s'.Owned := by
  have hownerOf (p : ParamId) : s'.ownerOf? p = s.ownerOf? p := by
    obtain ⟨g, hg, hcompletes⟩ := hdecl p
    unfold ownerOf?
    rw [hg]
    cases s.decl? p with
    | none => rfl
    | some d => exact (hcompletes d).owner
  have hcompleted {i : Nat} {d : Decl} (hd : s'.decl? i = some d) :
      ∃ e, s.decl? i = some e ∧ Completes e d := by
    obtain ⟨g, hg, hcompletes⟩ := hdecl i
    rw [hg] at hd
    obtain ⟨e, he, rfl⟩ := Option.map_eq_some_iff.1 hd
    exact ⟨e, he, hcompletes e⟩
  refine ⟨fun i d hd => ?_, fun i d o hd ho p => ?_⟩
  · obtain ⟨e, he, hcompletes⟩ := hcompleted hd
    rw [hcompletes.params]
    exact h.increasing i e he
  · obtain ⟨e, he, hcompletes⟩ := hcompleted hd
    rw [hcompletes.asOwner] at ho
    rw [hcompletes.params, hownerOf]
    exact h.listed i e o he ho p

theorem Owned.step (h : s.Owned) (hstep : Step s s') : s'.Owned := by
  rcases hstep.cases with ⟨e, hparams, howner, hdecl⟩ | ⟨name, owner, rfl⟩ | hdecl
  · exact h.of_declared hparams howner hdecl
  · exact h.declareParam name owner
  · exact h.of_completed hdecl

theorem Owned.built (h : s.Owned) (hbuilt : Built s s') : s'.Owned := by
  induction hbuilt with
  | refl => exact h
  | tail _ hstep ih => exact ih.step hstep

/-! ### Parameters of one owner only -/

theorem Owned.of_no_params
    (h : ∀ i < s.size + 1, ∀ d ∈ s.decl? i, d.params = [] ∧ d.owner? = none) : s.Owned := by
  have hall {i : Nat} {d : Decl} (hd : s.decl? i = some d) : d.params = [] ∧ d.owner? = none :=
    h i (Nat.lt_succ_of_le (le_size_of_decl? hd)) d hd
  refine ⟨fun i d hd => ?_, fun i d o hd ho p => ?_⟩
  · rw [(hall hd).1]
    exact .nil
  · have hnone : s.ownerOf? p = none := by
      unfold ownerOf?
      cases hp : s.decl? p with
      | none => rfl
      | some e => exact (hall hp).2
    simp [(hall hd).1, hnone]

theorem owned_standard : standard.Owned := .of_no_params (by decide +kernel)

theorem exists_of_mem_classParams {c : ClassId} {p : ParamId} (h : p ∈ s.classParams c) :
    ∃ d, s.decl? c = some (.cls d) ∧ p ∈ d.params := by
  unfold classParams class? at h
  split at h
  · rename_i d hd
    exact ⟨d, hd, h⟩
  · cases h

theorem Owned.ownerOf?_classParams (h : s.Owned) {c : ClassId} {p : ParamId}
    (hp : p ∈ s.classParams c) : s.ownerOf? p = some (.cls c) := by
  obtain ⟨d, hd, hmem⟩ := exists_of_mem_classParams hp
  exact ((h.listed c (.cls d) (.cls c) hd rfl p).1 hmem).2

theorem Owned.ownerOf?_typeParams (h : s.Owned) {m : MethodId} {d : MethodDecl}
    (hd : s.method? m = some d) {p : ParamId} (hp : p ∈ d.typeParams) :
    s.ownerOf? p = some (.method m) :=
  ((h.listed m (.method d) (.method m) (method?_eq_some_iff.1 hd) rfl p).1 hp).2

theorem Owned.nodup_classParams (h : s.Owned) (c : ClassId) : (s.classParams c).Nodup := by
  unfold classParams class?
  split
  · rename_i d hd
    show d.params.Nodup
    exact (h.increasing c (.cls d) hd).imp Nat.ne_of_lt
  · exact .nil

end Store

end GenericCalls
