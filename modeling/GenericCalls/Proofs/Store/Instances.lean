import GenericCalls.Proofs.Store.Views
import GenericCalls.Proofs.Ty.Composition

/-! # Views of an instance

An instance of a class type has its arguments under a substitution. Where declared supertypes
mention only the type parameters of their class, the supertypes of an instance are the instances of
the supertypes, and so an instance is seen at every ancestor as the instance of what was seen there
before. Substitution may be made before a class type is lifted to an ancestor, or after. -/

namespace GenericCalls

/-! ### The parameters of a type -/

namespace Ty

mutual
def mentioned : Ty → List ParamId
  | .prim _ => []
  | .array t => mentioned t
  | .cls _ args => mentionedAny args
  | .param p => [p]
  | .wild _ none => []
  | .wild _ (some b) => mentioned b
  | .captured _ _ none => []
  | .captured _ _ (some b) => mentioned b
  | .inter ts => mentionedAny ts
  | .null => []
  | .unknown => []
def mentionedAny : List Ty → List ParamId
  | [] => []
  | t :: ts => mentioned t ++ mentionedAny ts
end

mutual
theorem mem_mentioned_iff {p : ParamId} : (t : Ty) → (p ∈ mentioned t ↔ mentions p t = true)
  | .prim _ => by simp [mentioned, mentions]
  | .array t => mem_mentioned_iff t
  | .cls _ args => mem_mentionedAny_iff args
  | .param q => by rw [mentioned, mentions, List.mem_singleton, beq_iff_eq, eq_comm]
  | .wild _ none => by simp [mentioned, mentions]
  | .wild _ (some b) => mem_mentioned_iff b
  | .captured _ _ none => by simp [mentioned, mentions]
  | .captured _ _ (some b) => mem_mentioned_iff b
  | .inter ts => mem_mentionedAny_iff ts
  | .null => by simp [mentioned, mentions]
  | .unknown => by simp [mentioned, mentions]
theorem mem_mentionedAny_iff {p : ParamId} :
    (ts : List Ty) → (p ∈ mentionedAny ts ↔ mentionsAny p ts = true)
  | [] => by simp [mentionedAny, mentionsAny]
  | t :: ts => by
    rw [mentionedAny, mentionsAny, List.mem_append, Bool.or_eq_true, mem_mentioned_iff t,
      mem_mentionedAny_iff ts]
end

theorem mentions_toTy {p : ParamId} {c : ClassTy} {t : Ty} (ht : t ∈ c.args)
    (hp : t.mentions p = true) : c.toTy.mentions p = true := by
  rw [ClassTy.toTy, mentions, mentionsAny_eq_any]
  exact List.any_eq_true.2 ⟨t, ht, hp⟩

end Ty

namespace Store

/-- The supertypes that a class declares mention only its own type parameters. -/
def OwnParams (s : Store) : Prop :=
  ∀ c d, s.class? c = some d → ∀ t ∈ d.supertypes, ∀ p, t.toTy.mentions p = true → p ∈ d.params

variable {s : Store} {σ : Substitution} {c c' : ClassTy} {d : ClassDecl} {t : ClassTy}

theorem ownParams_of_mentioned (h : ∀ c < s.size + 1, ∀ d ∈ s.class? c, ∀ t ∈ d.supertypes,
    ∀ p ∈ t.toTy.mentioned, p ∈ d.params) : s.OwnParams := by
  intro c d hd t ht p hp
  exact forall_classes (P := fun _ d => ∀ t ∈ d.supertypes, ∀ p ∈ t.toTy.mentioned, p ∈ d.params)
    h c d hd t ht p ((Ty.mem_mentioned_iff _).2 hp)

/-! ### Instances -/

theorem substituteClass_eq_some_iff (hbinds : ¬σ.isEmpty = true) :
    σ.substituteClass c = some c' ↔
      c'.id = c.id ∧ Substitution.applyAll σ.get? c.args = some c'.args := by
  obtain ⟨id, args⟩ := c
  obtain ⟨id', args'⟩ := c'
  unfold Substitution.substituteClass
  rw [if_neg hbinds, Option.map_eq_some_iff]
  constructor
  · rintro ⟨us, hus, heq⟩
    cases heq
    exact ⟨rfl, hus⟩
  · rintro ⟨rfl, hus⟩
    exact ⟨args', hus, rfl⟩

theorem id_eq_of_substituteClass (h : σ.substituteClass c = some c') : c.id = c'.id := by
  by_cases hempty : σ.isEmpty = true
  · rw [Substitution.substituteClass, if_pos hempty] at h
    cases h
    rfl
  · exact ((substituteClass_eq_some_iff hempty).1 h).1.symm

theorem substituteClass_raw (σ : Substitution) (c : ClassId) :
    σ.substituteClass (.raw c) = some (.raw c) := by
  unfold Substitution.substituteClass
  split <;> rfl

theorem exists_substituteClass (hσ : ∀ p, σ.get? p ≠ some .erased) (c : ClassTy) :
    ∃ c', σ.substituteClass c = some c' := by
  by_cases hempty : σ.isEmpty = true
  · exact ⟨c, if_pos hempty⟩
  · have hsome := Substitution.applyAll_isSome fun t (_ : t ∈ c.args) =>
      Substitution.apply_isSome hσ t
    obtain ⟨us, hus⟩ := Option.isSome_iff_exists.1 hsome
    exact ⟨⟨c.id, us⟩, (substituteClass_eq_some_iff hempty).2 ⟨rfl, hus⟩⟩

/-! ### Supertypes -/

/-- Putting in arguments and then substituting is putting in the arguments under the
substitution, where only the parameters of the class are mentioned. -/
theorem apply_instance {params : List ParamId} {args us : List Ty} {u : Ty}
    (hu : ∀ p, u.mentions p = true → p ∈ params) (hlength : args.length = params.length)
    (hus : Substitution.applyAll σ.get? args = some us) :
    Substitution.apply (Substitution.ofArgs params us).get? u =
      (Substitution.apply (Substitution.ofArgs params args).get? u).bind
        (Substitution.apply σ.get?) := by
  rw [← Substitution.apply_chain]
  refine Substitution.apply_congr u fun p hp => ?_
  have hrelated :=
    Substitution.get?_ofArgs_related (Substitution.applyAll_eq_some_iff.1 hus) params p
  obtain ⟨x, _, hx⟩ := Substitution.exists_get?_ofArgs (hu p hp) hlength
  rw [hx] at hrelated
  unfold Substitution.chain
  rw [hx]
  cases hy : (Substitution.ofArgs params us).get? p with
  | none =>
    rw [hy] at hrelated
    cases hrelated
  | some b =>
    rw [hy] at hrelated
    cases hrelated with
    | some hrelated =>
      obtain ⟨_, y, heq, rfl, hxy⟩ := hrelated
      cases heq
      simp only [Binding.under, hxy]

theorem OwnParams.passing (hs : s.OwnParams) (σ : Substitution) :
    Passing s fun c c' => σ.substituteClass c = some c' := by
  refine .of_superWith id_eq_of_substituteClass fun {c c' d} h hd t ht => ?_
  by_cases hempty : σ.isEmpty = true
  · have hself (c : ClassTy) : σ.substituteClass c = some c := if_pos hempty
    rw [hself] at h
    cases h
    exact hself _
  obtain ⟨_, hus⟩ := (substituteClass_eq_some_iff hempty).1 h
  rcases superWith_together (Substitution.length_applyAll hus).symm d t with
    ⟨hsuper, hsuper'⟩ | ⟨hlength, vs, ws, hvs, hws, hsuper, hsuper'⟩
  · rw [hsuper, hsuper']
    exact substituteClass_raw σ t.id
  rw [hsuper, hsuper', substituteClass_eq_some_iff hempty]
  refine ⟨rfl, ?_⟩
  have hinstance : ∀ u ∈ t.args, Substitution.apply (Substitution.ofArgs d.params c'.args).get? u =
      (Substitution.apply (Substitution.ofArgs d.params c.args).get? u).bind
        (Substitution.apply σ.get?) := fun u hu =>
    apply_instance (fun p hp => hs c.id d hd t ht p (Ty.mentions_toTy hu hp)) hlength hus
  calc Substitution.applyAll σ.get? vs
      = (Substitution.applyAll (Substitution.ofArgs d.params c.args).get? t.args).bind
          (Substitution.applyAll σ.get?) := by rw [hvs, Option.bind_some]
    _ = some ws := by
      rw [← hws, ← Substitution.applyAll_chain fun u _ => Substitution.apply_chain u]
      exact Substitution.applyAll_congr fun u hu =>
        (Substitution.apply_chain u).trans (hinstance u hu).symm

/-! ### Views -/

theorem mapM_substitute {a : ClassId} {args args' : List Ty}
    (h : args = [] ∧ args' = [] ∨ σ.substituteClass ⟨a, args⟩ = some ⟨a, args'⟩) :
    args.mapM σ.substitute = some args' := by
  rcases h with ⟨rfl, rfl⟩ | h
  · rfl
  · rw [Substitution.substituteClass_eq_mapM, Option.map_eq_some_iff] at h
    obtain ⟨us, hus, heq⟩ := h
    cases heq
    exact hus

/-- Lifting commutes with substitution. Where declared supertypes mention only the type parameters
of their class, a class type under a substitution without erased parameters is seen at an ancestor
with the type arguments that it was seen with before, under the substitution, and is seen at no
other ancestors. -/
theorem ancestorArgs_substitute (hs : s.OwnParams) (hσ : ∀ p, σ.get? p ≠ some .erased)
    (c : ClassTy) (a : ClassId) :
    ∃ c', σ.substituteClass c = some c' ∧ σ.substitute c.toTy = some c'.toTy ∧
      (∀ args, s.ancestorArgs c a = some args →
        ∃ args', args.mapM σ.substitute = some args' ∧ s.ancestorArgs c' a = some args') ∧
      (s.ancestorArgs c a = none → s.ancestorArgs c' a = none) := by
  obtain ⟨c', hc'⟩ := exists_substituteClass hσ c
  have hviews := (hs.passing σ).ancestorArgs hc' a
  refine ⟨c', hc', by rw [Substitution.substitute_cls, hc']; rfl, fun args hargs => ?_,
    fun hnone => ?_⟩
  · rw [hargs] at hviews
    cases hargs' : s.ancestorArgs c' a with
    | none =>
      rw [hargs'] at hviews
      cases hviews
    | some args' =>
      rw [hargs'] at hviews
      cases hviews with
      | some hviews => exact ⟨args', mapM_substitute hviews, rfl⟩
  · rw [hnone] at hviews
    cases hargs' : s.ancestorArgs c' a with
    | none => rfl
    | some args' =>
      rw [hargs'] at hviews
      cases hviews

/-- The built-in classes with an interface `Box<B>`, an interface `Sink<S>` that inherits from
`Box<? super S>`, a class `Tray<T>` that implements `Sink<T>`, and a method `<U> m()`. -/
def trays : Store :=
  let (s, box) := standard.declareClass "Box" .interface
  let (s, _) := s.declareParam "B" (.cls box)
  let (s, sink) := s.declareClass "Sink" .interface
  let (s, e) := s.declareParam "S" (.cls sink)
  let s := s.addSupertype sink ⟨box, [.above (.param e)]⟩
  let (s, tray) := s.declareClass "Tray" .concrete
  let (s, t) := s.declareParam "T" (.cls tray)
  let s := s.addSupertype tray ⟨sink, [.param t]⟩
  let (s, m) := s.declareMethod "m" .method none
  (s.declareParam "U" (.method m)).1

/-- `Tray<U>` is seen as `Box<? super U>`, and `Tray<? super String>` as `Box<? super String>`. -/
theorem ancestorArgs_substitute_trays :
    let σ := Substitution.ofList [(20, .bound (.above (.raw 4)))]
    let c : ClassTy := ⟨17, [.param 20]⟩
    trays.OwnParams ∧ (∀ p, σ.get? p ≠ some .erased) ∧
      trays.ancestorArgs c 13 = some [.above (.param 20)] ∧
      σ.substituteClass c = some ⟨17, [.above (.raw 4)]⟩ ∧
      trays.ancestorArgs ⟨17, [.above (.raw 4)]⟩ 13 = some [.above (.raw 4)] := by
  intro σ c
  have howned : trays.OwnParams := ownParams_of_mentioned (by decide +kernel)
  have hσ : ∀ p, σ.get? p ≠ some .erased := fun p => by
    rw [show σ.get? p = if 20 = p then some (.bound (.above (.raw 4))) else none from rfl]
    split <;> nofun
  have hseen : trays.ancestorArgs c 13 = some [.above (.param 20)] := rfl
  obtain ⟨c', hc', _, hviews, _⟩ := ancestorArgs_substitute howned hσ c 13
  obtain ⟨args', hargs', hseen'⟩ := hviews _ hseen
  cases hc'
  cases hargs'
  exact ⟨howned, hσ, hseen, rfl, hseen'⟩

end Store

end GenericCalls
