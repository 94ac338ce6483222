import GenericCalls.Match.Basic
import GenericCalls.Proofs.Match.Preserves
import GenericCalls.Proofs.Store.Ancestors
import GenericCalls.Proofs.Store.Histories
import GenericCalls.Proofs.Store.Instances
import GenericCalls.Proofs.Store.Preserves
import GenericCalls.Proofs.Traversal
import GenericCalls.Proofs.Ty.Avoiding

/-! # Patterns without the target

A pattern that does not mention the target tells nothing about it, whatever it is matched against:
it neither equates nor bounds the target, nor erases it, nor makes the match fail. Seen at the class
of an expected type or of the type under `? super`, a pattern is put together from its own type
arguments and from what declared supertypes mention, which is never the type parameter of a method.
So wildcards and raw arguments that concern one type parameter do not concern another. -/

namespace GenericCalls.Store

open Ty

variable {s : Store} {target : ParamId} {t : Ty}

/-! ### Views of patterns -/

theorem avoids_single_iff {p : ParamId} : t.Avoids [p] ↔ t.mentions p = false := by
  simp [Ty.Avoids]

theorem OwnParams.not_mentions (hs : s.OwnParams) (howned : s.Owned) {m : MethodId}
    (hmethod : s.ownerOf? target = some (.method m)) {c : ClassId} {d : ClassDecl}
    (hd : s.class? c = some d) : ∀ u ∈ d.supertypes, u.toTy.mentions target = false := by
  intro u hu
  rw [Bool.eq_false_iff]
  intro hmentions
  have hparam : target ∈ s.classParams c := by
    rw [classParams, hd]
    exact hs c d hd u hu target hmentions
  rw [howned.ownerOf?_classParams hparam] at hmethod
  cases hmethod

/-- The supertypes that classes declare do not mention the target. -/
def Foreign (s : Store) (target : ParamId) : Prop :=
  ∀ c d, s.class? c = some d → ∀ u ∈ d.supertypes, u.toTy.mentions target = false

theorem Foreign.ancestorArgs (hs : s.Foreign target) {c : ClassTy} {a : ClassId} {args : List Ty}
    (hc : c.toTy.mentions target = false) (h : s.ancestorArgs c a = some args) :
    ∀ u ∈ args, u.mentions target = false := by
  have hsupers (c : ClassTy) (hc : c.toTy.Avoids [target]) :
      ∀ u ∈ s.directSupertypes c, u.toTy.Avoids [target] :=
    directSupertypes_of_declared (hereditary_avoids [target])
      (fun d hd u hu => avoids_single_iff.2 (hs c.id d hd u hu)) hc
  rcases ancestorArgs_invariant hsupers (avoids_single_iff.2 hc) h with ⟨_, rfl⟩ | hseen
  · exact nofun
  · exact fun u hu => avoids_single_iff.1 (avoids_cls_iff.1 hseen u hu)

/-! ### Type arguments -/

/-- The matching of parts says nothing where the pattern does not mention the target. -/
def Silent (target : ParamId) (go : Ty → Ty → Option MatchResult) : Prop :=
  ∀ p t r, p.mentions target = false → go p t = some r → r = .noInfo

variable {go : Ty → Ty → Option MatchResult} {r : MatchResult}

theorem Silent.matchArgs (hgo : Silent target go) {pairs : List (Ty × Ty)}
    (hpairs : ∀ p ∈ pairs, p.1.mentions target = false)
    (h : matchArgs go none pairs = some r) : r = .noInfo := by
  induction pairs with
  | nil =>
    cases h
    rfl
  | cons p pairs ih =>
    obtain ⟨hp, hpairs⟩ := List.forall_mem_cons.1 hpairs
    rw [Store.matchArgs] at h
    split at h
    · cases h
    · exact ih hpairs h
    · rename_i c hc
      cases hgo _ _ _ hp hc
    · rename_i hr
      cases h
      exact hgo _ _ _ hp hr

theorem joinBoundResults_of_silent {results : List MatchResult} (h : ∀ r ∈ results, r = .noInfo) :
    joinBoundResults results = .noInfo := by
  have hcount : results.countP MatchResult.isWild = 0 :=
    List.countP_eq_zero.2 fun r hr => by
      rw [h r hr]
      exact Bool.false_ne_true
  have hfind : (results.find? fun r => !r.isNoInfo) = none :=
    List.find?_eq_none.2 fun r hr => by
      rw [h r hr]
      exact Bool.false_ne_true
  rw [joinBoundResults, hcount, hfind]
  rfl

theorem Silent.matchBoundArgs (hgo : Silent target go) {pairs : List (Ty × Ty)}
    (hpairs : ∀ p ∈ pairs, p.1.mentions target = false)
    (h : matchBoundArgs go pairs = some r) : r = .noInfo := by
  obtain ⟨results, hresults, rfl⟩ := Option.map_eq_some_iff.1 h
  rw [mapM_eq_some_iff] at hresults
  refine joinBoundResults_of_silent fun r hr => ?_
  have hmem : some r ∈ results.map some := List.mem_map_of_mem hr
  rw [← hresults] at hmem
  obtain ⟨p, hp, hfound⟩ := List.mem_map.1 hmem
  exact hgo _ _ _ (hpairs p hp) hfound

/-! ### Steps -/

theorem holdsTarget_of_not_mentions (h : t.mentions target = false) :
    holdsTarget target t = false := by
  cases t with
  | param p => exact h
  | wild k b =>
    cases b with
    | none => rfl
    | some b =>
      cases b with
      | param p => exact h
      | _ => rfl
  | _ => rfl

theorem isParam_of_not_mentions (h : t.mentions target = false) : t.isParam target = false := by
  cases t with
  | param p => exact h
  | _ => rfl

theorem Silent.matchClass (hgo : Silent target go) {pattern arg : ClassTy}
    (hpattern : pattern.toTy.mentions target = false)
    (h : s.matchClass target go pattern arg = some r) : r = .noInfo := by
  have hargs : ∀ p ∈ pattern.args, p.mentions target = false := mentionsAny_eq_false_iff.1 hpattern
  unfold Store.matchClass at h
  split at h
  · cases h
    rw [if_neg]
    rw [List.any_eq_true]
    rintro ⟨p, hp, hholds⟩
    rw [holdsTarget_of_not_mentions (hargs p hp)] at hholds
    cases hholds
  · exact hgo.matchArgs (fun p hp => hargs _ (mem_of_pairArgs hp).1) h

theorem Foreign.matchBound (hs : s.Foreign target) {go : Ty → Ty → Bearing → Option MatchResult}
    {deeper : Ty → Ty → Option MatchResult} (hgo : ∀ b, Silent target fun p t => go p t b)
    (hdeeper : Silent target deeper) {kind : WildcardKind} {bound arg : Ty}
    (hbound : bound.mentions target = false)
    (h : s.matchBound target go deeper kind bound arg = some r) : r = .noInfo := by
  unfold Store.matchBound at h
  dsimp only at h
  split at h
  · split at h
    · split at h
      · exact hgo _ _ _ _ hbound h
      · cases h
        rfl
    · cases h
      rfl
  · rw [isParam_of_not_mentions hbound] at h
    simp only [Bool.false_eq_true, if_false] at h
    split at h
    · rename_i p t _
      exact hgo _ p t r hbound h
    · rename_i c cs d ds _
      have hargs : ∀ p ∈ cs, p.mentions target = false := mentionsAny_eq_false_iff.1 hbound
      split at h
      · -- The patterns paired are the arguments of the bound, or those with which it is seen.
        rename_i pairs hpairs
        refine hdeeper.matchBoundArgs (fun p hp => ?_) h
        cases kind with
        | upper =>
          obtain ⟨lifted, _, rfl⟩ := Option.map_eq_some_iff.1 hpairs
          exact hargs _ (mem_of_pairArgs hp).1
        | lower =>
          obtain ⟨lifted, hlifted, rfl⟩ := Option.map_eq_some_iff.1 hpairs
          exact hs.ancestorArgs (c := ⟨c, cs⟩) hbound hlifted _ (mem_of_pairArgs hp).1
      · cases h
        rfl
    · cases h
      rfl

theorem Foreign.matchStep (hs : s.Foreign target)
    {go : Ty → Ty → Bearing → Nat → Option MatchResult}
    (hgo : ∀ b d, Silent target fun p t => go p t b d) {pattern arg : Ty} {b : Bearing} {d : Nat}
    (hpattern : pattern.mentions target = false)
    (h : s.matchStep target go pattern arg b d = some r) : r = .noInfo := by
  unfold Store.matchStep at h
  dsimp only at h
  rw [isParam_of_not_mentions hpattern] at h
  simp only [Bool.false_eq_true, if_false] at h
  split at h
  · rename_i p t _
    exact hgo _ _ p t r hpattern h
  · cases h
    rfl
  · rename_i k bound
    have hbound : bound.mentions target = false := hpattern
    exact hs.matchBound (fun b => hgo b d) (hgo _ _) hbound h
  · rename_i c cs d ds _
    split at h
    · have hclass : (ClassTy.mk c cs).toTy.mentions target = false := hpattern
      exact (hgo _ _).matchClass hclass h
    · cases h
      rfl
  · cases h
    rfl

theorem Foreign.matchWithin (hs : s.Foreign target) (n : Nat) (b : Bearing) (d : Nat) :
    Silent target fun p t => s.matchWithin target n p t b d := by
  induction n generalizing b d with
  | zero =>
    intro p t r _ h
    cases h
  | succ n ih =>
    intro p t r hp h
    exact hs.matchStep ih hp h

/-! ### Whole types -/

theorem Foreign.matchTypes (hs : s.Foreign target) {pattern arg : Ty} {b : Bearing} {d : Nat}
    (hpattern : pattern.mentions target = false) :
    s.matchTypes target pattern arg b d = .noInfo := by
  unfold Store.matchTypes
  cases h : s.matchWithin target (matchBudget pattern arg) pattern arg b d with
  | none => rfl
  | some r => exact hs.matchWithin _ b d pattern arg r hpattern h

theorem Foreign.constrainClass (hs : s.Foreign target) {flow : Flow} {pattern : ClassTy} {arg : Ty}
    (hpattern : pattern.toTy.mentions target = false) :
    s.constrainClass target flow pattern arg = .noInfo := by
  unfold Store.constrainClass
  split
  · split
    · exact hs.matchTypes hpattern
    · rfl
  · split
    · rename_i lifted hlifted
      exact hs.matchTypes (mentionsAny_eq_false_iff.2 (hs.ancestorArgs hpattern hlifted))
    · rfl
  · rfl

theorem Foreign.constrain (hs : s.Foreign target) {flow : Flow} {declared arg : Ty}
    (hdeclared : declared.mentions target = false) :
    s.constrain target flow declared arg = .noInfo := by
  fun_induction Store.constrain s target flow declared arg with
  | case1 p t ih => exact ih hdeclared
  | case2 p t u hbox hfound =>
    have hne : p ≠ target := beq_eq_false_iff_ne.1 hdeclared
    simp [hne] at hfound
  | case5 c cs t u hbox => exact hs.constrainClass hdeclared
  | _ => rfl

/-- In a store in which declared supertypes mention only the type parameters of their class, a
pattern that does not mention the type parameter of a method says nothing about it: whatever the
type and the direction, the result is neither a constraint nor a failure nor an erasure. The same
holds of all patterns within, whenever their matching comes to an end. -/
theorem constrain_of_not_mentions {start : Store} (hstart : start = bare ∨ start = standard)
    (hbuilt : Built start s) (hown : s.OwnParams) {d : ParamDecl} {m : MethodId}
    (hd : s.param? target = some d) (hmethod : d.owner = .method m) :
    (∀ flow declared arg, declared.mentions target = false →
        s.constrain target flow declared arg = .noInfo) ∧
      ∀ n pattern arg bearing depth r, pattern.mentions target = false →
        s.matchWithin target n pattern arg bearing depth = some r → r = .noInfo := by
  have howned : s.Owned := (Owned.of_no_params (noParams_of_builtIn hstart)).built hbuilt
  have howner : s.ownerOf? target = some (.method m) := by
    rw [ownerOf?, param?_eq_some_iff.1 hd, ← hmethod]
    rfl
  have hs : s.Foreign target := fun c d hd => hown.not_mentions howned howner hd
  exact ⟨fun _ _ _ h => hs.constrain h, fun n p t b d r h => hs.matchWithin n b d p t r h⟩

/-- The built-in classes with an interface `Box<B>`, an interface `Sink<S>` that inherits from
`Box<? super S>`, and a method `<U, V> m()`. -/
def sinks : List Operation :=
  [.declareClass "Box" .interface, .declareParam "B" (.cls 13), .declareClass "Sink" .interface,
    .declareParam "S" (.cls 15), .addSupertype 15 ⟨13, [.above (.param 16)]⟩,
    .declareMethod "m" .method none, .declareParam "U" (.method 17), .declareParam "V" (.method 17)]

/-- The raw type `Box`, where `Sink<V>` is returned, erases `V` and says nothing about `U`. -/
theorem constrain_of_not_mentions_sinks :
    let s := (standard.run sinks).1
    let seen : Ty := .cls 13 [.above (.param 19)]
    s.OwnParams ∧ s.ancestorArgs ⟨15, [.param 19]⟩ 13 = some [.above (.param 19)] ∧
      s.constrain 18 .intoContext (.cls 15 [.param 19]) (.raw 13) = .noInfo ∧
      s.matchWithin 18 2 seen (.raw 13) .atLeast 0 = some .noInfo ∧
      s.matchWithin 19 2 seen (.raw 13) .atLeast 0 = some .raw := by
  intro s seen
  have hown : s.OwnParams := ownParams_of_mentioned (by decide +kernel)
  have hparam : s.param? 18 = some ⟨"U", .method 17, []⟩ := rfl
  have h := constrain_of_not_mentions (.inr rfl) (built_run standard sinks) hown hparam rfl
  have hmatched : s.matchWithin 18 2 seen (.raw 13) .atLeast 0 = some .noInfo := rfl
  exact ⟨hown, rfl, h.1 .intoContext (.cls 15 [.param 19]) (.raw 13) rfl, hmatched, rfl⟩

end GenericCalls.Store
