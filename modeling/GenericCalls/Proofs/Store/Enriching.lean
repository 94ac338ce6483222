import GenericCalls.Proofs.Store.WellFormed

/-! # Enriching a store

A store grows in two stages. First classes and their type parameters are introduced, while all types
in declarations are still raw. From then on no class gets further type parameters, so that a type
which is well formed stays so, while the store is enriched: methods are declared, and declarations
are completed with well-formed types. -/

namespace GenericCalls

/-- One declaration may take the place of another where types refer to it: it has the same type
parameters if it is a class, and the same name if it is a type parameter. -/
inductive Decl.Replaces : Decl → Decl → Prop where
  | cls {d d' : ClassDecl} (h : d'.params = d.params) : Replaces (.cls d') (.cls d)
  | param {d d' : ParamDecl} (h : d'.name = d.name) : Replaces (.param d') (.param d)
  | method (d d' : MethodDecl) : Replaces (.method d') (.method d)

theorem Decl.Replaces.refl (d : Decl) : d.Replaces d := by
  cases d with
  | cls d => exact .cls rfl
  | param d => exact .param rfl
  | method d => exact .method d d

theorem Decl.Replaces.trans {d d' d'' : Decl} (h : d''.Replaces d') (h' : d'.Replaces d) :
    d''.Replaces d := by
  cases h with
  | cls heq => cases h' with | cls heq' => exact .cls (heq.trans heq')
  | param heq => cases h' with | param heq' => exact .param (heq.trans heq')
  | method => cases h' with | method => exact .method _ _

namespace Store

variable {s s' s'' : Store} {t : Ty} {c : ClassId} {p : ParamId}

/-! ### Root and wrappers -/

theorem Step.root_and_wrapper (h : Step s s') : s'.root = s.root ∧ s'.wrapper = s.wrapper := by
  have hmodify (s : Store) (f : Decl → Decl) (i : Nat) :
      (s.modify f i).root = s.root ∧ (s.modify f i).wrapper = s.wrapper := by
    cases i <;> exact ⟨rfl, rfl⟩
  cases h with
  | declareClass | declareMethod => exact ⟨rfl, rfl⟩
  | declareParam name owner => cases owner <;> exact hmodify _ _ _
  | _ => exact hmodify _ _ _

theorem Rooted.step (h : s.Rooted) (hstep : Step s s') : s'.Rooted := by
  have hkeeps {c : ClassId} : (s.class? c).isSome = true → (s'.class? c).isSome = true :=
    Built.class?_isSome (.single hstep)
  obtain ⟨hroot, hwrapper⟩ := hstep.root_and_wrapper
  refine ⟨?_, fun p c hc => ?_⟩
  · rw [hroot]
    exact hkeeps h.root
  · rw [hwrapper] at hc
    exact hkeeps (h.wrapper p c hc)

/-! ### Declaring classes -/

/-- One store comes from another by declaring a class or a type parameter. -/
inductive Introduces : Store → Store → Prop where
  | declareClass (s : Store) (name : String) (kind : ClassKind) :
      Introduces s (s.declareClass name kind).1
  | declareParam (s : Store) (name : String) (owner : ParamOwner) :
      Introduces s (s.declareParam name owner).1

/-- One store comes from another by declaring classes and type parameters. -/
abbrev Introduced : Store → Store → Prop := Relation.ReflTransGen Introduces

theorem Introduces.step (h : Introduces s s') : Step s s' := by
  cases h with
  | declareClass name kind => exact .declareClass s name kind
  | declareParam name owner => exact .declareParam s name owner

theorem Introduced.built (h : Introduced s s') : Built s s' := h.lift id fun _ _ => Introduces.step

def declaresRaw (s : Store) : Ty → Bool
  | .cls c [] => (s.class? c).isSome
  | _ => false

theorem declaresRaw_iff :
    s.declaresRaw t = true ↔ ∃ c, t = .raw c ∧ (s.class? c).isSome = true := by
  cases t with
  | cls c args => cases args <;> simp [declaresRaw, Ty.raw]
  | _ => simp [declaresRaw, Ty.raw]

/-- All types in declarations are declared classes without type arguments. -/
structure Plain (s : Store) : Prop extends Rooted s where
  types : ∀ i d, s.decl? i = some d → ∀ t ∈ d.types, s.declaresRaw t = true

theorem Plain.wellFormed (h : s.Plain) : s.WellFormed where
  toRooted := h.toRooted
  types := by
    intro i d hd t ht
    obtain ⟨c, rfl, hc⟩ := declaresRaw_iff.1 (h.types i d hd t ht)
    exact wellFormed_raw_iff.2 hc

theorem Introduces.types (h : Introduces s s') {i : Nat} {d : Decl} (hd : s'.decl? i = some d)
    (ht : t ∈ d.types) : ∃ e, s.decl? i = some e ∧ t ∈ e.types := by
  cases h with
  | declareClass name kind =>
    rw [Store.declareClass, decl?_declare] at hd
    split at hd
    · cases hd
      cases ht
    · exact ⟨d, hd, ht⟩
  | declareParam name owner =>
    rw [decl?_declareParam] at hd
    split at hd
    · cases hd
      cases ht
    · obtain ⟨e, he, rfl⟩ := Option.map_eq_some_iff.1 hd
      refine ⟨e, he, ?_⟩
      split at ht
      · cases e <;> exact ht
      · exact ht

theorem Plain.introduces (h : s.Plain) (hstep : Introduces s s') : s'.Plain where
  toRooted := h.toRooted.step hstep.step
  types := by
    intro i d hd t ht
    obtain ⟨e, he, hte⟩ := hstep.types hd ht
    obtain ⟨c, rfl, hc⟩ := declaresRaw_iff.1 (h.types i e he t hte)
    exact declaresRaw_iff.2 ⟨c, rfl, Built.class?_isSome (.single hstep.step) hc⟩

theorem Plain.introduced (h : s.Plain) (hsteps : Introduced s s') : s'.Plain := by
  induction hsteps with
  | refl => exact h
  | tail _ hstep ih => exact ih.introduces hstep

theorem plain_of_declared (hroot : (s.class? s.root).isSome = true)
    (hwrapper : ∀ p ∈ Primitive.all, ∀ c ∈ s.wrapper p, (s.class? c).isSome = true)
    (htypes : ∀ i < s.size + 1, ∀ d ∈ s.decl? i, ∀ t ∈ d.types, s.declaresRaw t = true) :
    s.Plain where
  root := hroot
  wrapper p := hwrapper p (Primitive.mem_all p)
  types i d hd := htypes i (Nat.lt_succ_of_le (le_size_of_decl? hd)) d hd

theorem plain_standard : standard.Plain :=
  plain_of_declared (by decide +kernel) (by decide +kernel) (by decide +kernel)

/-! ### Completing declarations -/

/-- One store comes from another by declaring a method or a type parameter of one, or by completing
something with well-formed types. -/
inductive Enriches : Store → Store → Prop where
  | declareMethod (s : Store) (name : String) (kind : CallableKind) (owner : Option ClassId) :
      Enriches s (s.declareMethod name kind owner).1
  | declareParam (s : Store) (name : String) (m : MethodId) :
      Enriches s (s.declareParam name (.method m)).1
  | addSupertype (s : Store) (c : ClassId) {supertype : ClassTy}
      (h : s.wellFormed supertype.toTy = true) : Enriches s (s.addSupertype c supertype)
  | setBounds (s : Store) (p : ParamId) {bounds : List Ty}
      (h : ∀ b ∈ bounds, s.wellFormed b = true) : Enriches s (s.setBounds p bounds)
  | setSignature (s : Store) (m : MethodId) {formals : List Formal} {returns : Ty}
      (variadic : Bool) (hformals : ∀ f ∈ formals, s.wellFormed f.ty = true)
      (hreturns : s.wellFormed returns = true) :
      Enriches s (s.setSignature m formals returns variadic)
  | setVisibility (s : Store) (m : MethodId) (visibility : Visibility) :
      Enriches s (s.setVisibility m visibility)

/-- One store comes from another by enriching it. -/
abbrev Enriched : Store → Store → Prop := Relation.ReflTransGen Enriches

theorem Enriches.step (h : Enriches s s') : Step s s' := by
  cases h with
  | declareMethod name kind owner => exact .declareMethod s name kind owner
  | declareParam name m => exact .declareParam s name (.method m)
  | addSupertype c => exact .addSupertype s c _
  | setBounds p => exact .setBounds s p _
  | setSignature m variadic => exact .setSignature s m _ _ variadic
  | setVisibility m visibility => exact .setVisibility s m visibility

theorem Enriched.built (h : Enriched s s') : Built s s' := h.lift id fun _ _ => Enriches.step

/-! ### Growth -/

/-- All that types refer to in one store is there in another. -/
def Grows (s s' : Store) : Prop :=
  ∀ i d, s.decl? i = some d → ∃ d', s'.decl? i = some d' ∧ d'.Replaces d

theorem Grows.refl (s : Store) : Grows s s := fun _ d hd => ⟨d, hd, .refl d⟩

theorem Grows.trans (h : Grows s s') (h' : Grows s' s'') : Grows s s'' := by
  intro i d hd
  obtain ⟨d', hd', hreplaces⟩ := h i d hd
  obtain ⟨d'', hd'', hreplaces'⟩ := h' i d' hd'
  exact ⟨d'', hd'', hreplaces'.trans hreplaces⟩

theorem Grows.of_modify {f : Decl → Decl} (hf : ∀ d, (f d).Replaces d) (s : Store) (j : Nat) :
    Grows s (s.modify f j) := by
  intro i d hd
  rw [decl?_modify, hd]
  split
  · exact ⟨f d, rfl, hf d⟩
  · exact ⟨d, rfl, .refl d⟩

theorem Grows.of_declare (s : Store) (e : Decl) : Grows s (s.declare e).1 := by
  intro i d hd
  have hi := le_size_of_decl? hd
  rw [decl?_declare, if_neg (by omega)]
  exact ⟨d, hd, .refl d⟩

theorem Enriches.grows (h : Enriches s s') : Grows s s' := by
  cases h with
  | declareMethod => exact .of_declare s _
  | declareParam name m =>
    intro i d hd
    have hi := le_size_of_decl? hd
    rw [decl?_declareParam, if_neg (by omega), hd]
    refine ⟨_, rfl, ?_⟩
    dsimp only
    split
    · cases d with
      | method d => exact .method _ _
      | _ => rename_i howner; cases howner
    · exact .refl d
  | addSupertype | setBounds | setSignature | setVisibility =>
    refine .of_modify (fun d => ?_) s _
    cases d <;> constructor <;> rfl

theorem Enriched.grows (h : Enriched s s') : Grows s s' := by
  induction h with
  | refl => exact .refl s
  | tail _ hstep ih => exact ih.trans hstep.grows

theorem Grows.class? (h : Grows s s') {d : ClassDecl} (hd : s.class? c = some d) :
    ∃ d', s'.class? c = some d' ∧ d'.params = d.params := by
  obtain ⟨d', hd', hreplaces⟩ := h c _ (class?_eq_some_iff.1 hd)
  cases hreplaces with
  | cls heq => exact ⟨_, class?_eq_some_iff.2 hd', heq⟩

theorem Grows.param? (h : Grows s s') {d : ParamDecl} (hd : s.param? p = some d) :
    ∃ d', s'.param? p = some d' ∧ d'.name = d.name := by
  obtain ⟨d', hd', hreplaces⟩ := h p _ (param?_eq_some_iff.1 hd)
  cases hreplaces with
  | param heq => exact ⟨_, param?_eq_some_iff.2 hd', heq⟩

theorem Grows.wellFormed (h : Grows s s') (t : Ty) :
    s.wellFormed t = true → s'.wellFormed t = true := by
  induction t using Ty.induct with
  | array t ih =>
    rw [Store.wellFormed, Store.wellFormed]
    exact ih
  | cls c args ih =>
    intro ht
    obtain ⟨⟨d, hd, hlength⟩, hargs⟩ := wellFormed_cls_iff.1 ht
    obtain ⟨d', hd', hparams⟩ := h.class? hd
    exact wellFormed_cls_iff.2
      ⟨⟨d', hd', hparams ▸ hlength⟩, fun t ht => ih t ht (hargs t ht)⟩
  | param p =>
    rw [Store.wellFormed, Store.wellFormed, Option.isSome_iff_exists, Option.isSome_iff_exists]
    rintro ⟨d, hd⟩
    obtain ⟨d', hd', _⟩ := h.param? hd
    exact ⟨d', hd'⟩
  | wild k b ih =>
    rw [Store.wellFormed, Store.wellFormed]
    exact ih
  | captured i k b ih =>
    rw [Store.wellFormed, Store.wellFormed]
    exact ih
  | inter ts ih =>
    rw [Store.wellFormed, Store.wellFormed, allWellFormed_iff, allWellFormed_iff]
    exact fun hts t ht => ih t ht (hts t ht)
  | unknown =>
    intro ht
    cases ht
  | _ => exact fun _ => rfl

/-! ### Declared types -/

/-- If one declaration is changed and its types stay well formed, then all types stay so. -/
theorem WellFormed.types_modify (hs : s.WellFormed) {f : Decl → Decl}
    (hf : ∀ e, (∀ t ∈ e.types, s.wellFormed t = true) → ∀ t ∈ (f e).types, s.wellFormed t = true)
    {i j : Nat} {d : Decl} (hd : (s.modify f j).decl? i = some d) :
    ∀ t ∈ d.types, s.wellFormed t = true := by
  rw [decl?_modify] at hd
  split at hd
  · obtain ⟨e, he, rfl⟩ := Option.map_eq_some_iff.1 hd
    exact hf e (hs.types i e he)
  · exact hs.types i d hd

theorem Enriches.types (hs : s.WellFormed) (h : Enriches s s') {i : Nat} {d : Decl}
    (hd : s'.decl? i = some d) : ∀ t ∈ d.types, s.wellFormed t = true := by
  cases h with
  | declareMethod name kind owner =>
    rw [Store.declareMethod, decl?_declare] at hd
    split at hd
    · cases hd
      simp [Decl.types, Store.wellFormed]
    · exact hs.types i d hd
  | declareParam name m =>
    rw [decl?_declareParam] at hd
    split at hd
    · cases hd
      intro t ht
      cases ht
    · obtain ⟨e, he, rfl⟩ := Option.map_eq_some_iff.1 hd
      have he := hs.types i e he
      split
      · cases e <;> exact he
      · exact he
  | addSupertype c h =>
    refine hs.types_modify (fun e he => ?_) hd
    cases e with
    | cls e => simpa [Decl.types, or_imp, forall_and, h] using he
    | _ => exact he
  | setBounds p h =>
    refine hs.types_modify (fun e he => ?_) hd
    cases e with
    | param e => exact h
    | _ => exact he
  | setSignature m variadic hformals hreturns =>
    refine hs.types_modify (fun e he => ?_) hd
    cases e with
    | method e => exact List.forall_mem_cons.2 ⟨hreturns, List.forall_mem_map.2 hformals⟩
    | _ => exact he
  | setVisibility m visibility =>
    refine hs.types_modify (fun e he => ?_) hd
    cases e <;> exact he

theorem WellFormed.enriches (hs : s.WellFormed) (h : Enriches s s') : s'.WellFormed where
  toRooted := hs.toRooted.step h.step
  types _ _ hd t ht := h.grows.wellFormed t (h.types hs hd t ht)

theorem WellFormed.enriched (hs : s.WellFormed) (h : Enriched s s') : s'.WellFormed := by
  induction h with
  | refl => exact hs
  | tail _ hstep ih => exact ih.enriches hstep

end Store

end GenericCalls
