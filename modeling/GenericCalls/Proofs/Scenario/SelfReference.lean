import GenericCalls.Proofs.Inference.Exact
import GenericCalls.Proofs.Inference.Guesses
import GenericCalls.Proofs.Inference.Pairs
import GenericCalls.Proofs.Scenario.Receivers
import GenericCalls.Proofs.Store.Erasure
import GenericCalls.Proofs.Store.KeepsOut
import GenericCalls.Proofs.TypeExpr.WellFormed

/-! # Bindings that mention their own parameter

Inference leaves a parameter out rather than binding it to a type that mentions it. Two other places
make bindings and do not look: pairs of types bind a parameter to whatever the types say, and a
receiver binds the parameters of its class to whatever type arguments it is written with. There a
binding mentions its own parameter exactly if the types in question bring it in. -/

namespace GenericCalls

def Substitution.SelfFree (σ : Substitution) : Prop :=
  ∀ p t, σ.get? p = some (.bound t) → t.mentions p = false

namespace Substitution

theorem selfFree_empty : empty.SelfFree := fun _ _ h => nomatch h

theorem selfFree_raw (ps : List ParamId) : (raw ps).SelfFree := by
  intro p t h
  unfold raw at h
  rw [get?_eraseAll] at h
  split at h <;> cases h

/-- Type arguments bind the parameters in their places, each to a type that does not mention it if
no argument does. -/
theorem selfFree_ofArgs_iff {ps : List ParamId} {ts : List Ty} (hps : ps.Nodup)
    (hlength : ts.length = ps.length) :
    (ofArgs ps ts).SelfFree ↔ ∀ a ∈ ps.zip ts, a.2.mentions a.1 = false := by
  constructor
  · exact fun h a ha => h a.1 a.2 (get?_ofArgs_of_mem hps hlength ha)
  · intro h p t hget
    obtain ⟨u, hu, heq⟩ := mem_zip_of_get?_ofArgs hget
    cases heq
    exact h _ hu

end Substitution

/-! ### Inference -/

namespace Engine

/-- Inference binds no parameter to a type that mentions it, if the given bindings do not. -/
theorem selfFree_infer (e : Engine) {r : Request} (hgiven : r.given.SelfFree) (s : Session) :
    (e.infer r s).1.SelfFree := by
  intro p t hget
  obtain ⟨hall, houtside⟩ := answers_infer e r s
  by_cases hp : p ∈ r.typeParams
  · rcases hall with herased | hsettles
    · rw [herased, Substitution.get?_eraseAll, if_pos hp] at hget
      cases hget
    · rcases hsettles p hp with ⟨u, hu, hmention⟩ | hsame
      · rw [hget] at hu
        cases hu
        exact hmention
      · exact hgiven p t (hsame.symm.trans hget)
  · exact hgiven p t ((houtside.get?_eq hp).symm.trans hget)

/-- A parameter for which only types that mention it are found is left as it was given, unless all
are erased. -/
theorem left_out_of_mentions (e : Engine) (r : Request) (s : Session) :
    (e.infer r s).1 = r.given.eraseAll r.typeParams ∨ ∀ p,
      (∀ t, (p, some t) ∈ r.typeParams.zip (found e.store r (e.verdicts r s)) →
        t.mentions p = true) → (e.infer r s).1.get? p = r.given.get? p := by
  rw [infer_eq_conclude]
  refine (conclude_cases e.store r (e.verdicts r s)).imp_right fun ⟨_, hσ⟩ p hmentions => ?_
  rcases get?_bindAll? hσ p with ⟨hsame, _⟩ | ⟨t, ht, hmention, _⟩
  · exact hsame
  · rw [hmentions t ht] at hmention
    cases hmention

end Engine

/-! ### Pairs -/

theorem Ty.mentions_of_isErased {p : ParamId} {t : Ty} (h : t.isErased = true) :
    t.mentions p = false := by
  fun_induction isErased t with
  | case1 t ih => exact ih h
  | case2 c args =>
    rw [List.isEmpty_iff.1 h]
    rfl
  | case6 => cases h
  | _ => rfl

namespace Store

variable {s : Store} {P : Ty → Prop} {rs : List MatchResult} {t u : Ty} {ts rest : List Ty}

/-- What the matches say of a parameter is that it is `t`: they equate it with `t`, or the join of
its upper bounds is `t` in the end. -/
def EvidenceGives (s : Store) (rs : List MatchResult) (t : Ty) : Prop :=
  FirstEquates rs t ∨ NoneEquates rs ∧
    ∃ u us, s.Remains (typesBearing .atMost rs) (u :: us) ∧ s.Joins u us t

theorem EvidenceGives.pairsGive (h : s.EvidenceGives rs t) : s.PairsGive rs u t := by
  rcases h with hexact | ⟨hnone, _, _, hrest, hjoin⟩
  · exact .equated hexact
  · exact .joined hnone hrest hjoin

theorem PairsGive.evidence_or_erased (h : s.PairsGive rs u t) : s.EvidenceGives rs t ∨ t = u := by
  cases h with
  | equated hexact => exact .inl (.inl hexact)
  | joined hnone hrest hjoin => exact .inl (.inr ⟨hnone, _, _, hrest, hjoin⟩)
  | erased => exact .inr rfl

theorem mentions_paramErasure (s : Store) (p q : ParamId) :
    (s.paramErasure p).mentions q = false :=
  Ty.mentions_of_isErased (isErased_erasure s (.param p))

theorem EvidenceGives.preserves (hs : s.Preserves P) (hrs : ∀ r ∈ rs, r.Finds P)
    (h : s.EvidenceGives rs t) : P t := by
  rcases h with ⟨before, after, rfl, _⟩ | ⟨_, u, us, hrest, hjoin⟩
  · exact hrs (.found ⟨t, .exactly⟩) (by simp) _ rfl
  · have hupper : ∀ v ∈ u :: us, P v := fun v hv =>
      hrs _ (mem_of_mem_typesBearing (hrest.mem hv)) _ rfl
    obtain ⟨hu, hus⟩ := List.forall_mem_cons.1 hupper
    exact hs.foldlM_lub hu hus (foldlM_lub_eq_some_iff.2 hjoin)

end Store

namespace Engine

variable {s : Store} {params : List ParamId} {formals types : List Ty} {σ : Substitution}

/-- Pairs bind a parameter to a type that mentions it exactly if this type is what they say. -/
theorem selfFree_inferPairs_iff (h : inferPairs s params formals types = .ok σ) :
    σ.SelfFree ↔ ∀ p ∈ params, ∀ t,
      s.EvidenceGives (pairResults s (formals.zip types) p) t → t.mentions p = false := by
  obtain ⟨τ, hτ, hget⟩ := inferPairs_of_length s params (length_of_inferPairs h)
  cases h.symm.trans hτ
  have hgive (p : ParamId) := pairsGive_pairAnswer s (formals.zip types) p
  constructor
  · intro hfree p hp t ht
    refine hfree p t ?_
    rw [hget, if_pos hp, ht.pairsGive.unique (hgive p)]
  · intro hevidence p t hbound
    rw [hget] at hbound
    split at hbound
    · rename_i hp
      cases hbound
      rcases (hgive p).evidence_or_erased with h | h
      · exact hevidence p hp _ h
      · rw [h]
        exact s.mentions_paramErasure p p
    · cases hbound

/-- Pairs bind no parameter to a type that mentions it, if neither the types nor the declarations
bring it in. -/
theorem selfFree_of_avoids (h : inferPairs s params formals types = .ok σ)
    (havoid : ∀ p ∈ params, s.KeepsOut [p] ∧ Ty.AllAvoid [p] types) : σ.SelfFree := by
  refine (selfFree_inferPairs_iff h).2 fun p hp t ht => ?_
  obtain ⟨hs, htypes⟩ := havoid p hp
  refine ht.preserves hs.preserves (fun r hr => ?_) p List.mem_cons_self
  obtain ⟨⟨formal, u⟩, hpair, rfl⟩ := List.mem_map.1 hr
  exact hs.preserves.constrain (htypes u (List.of_mem_zip hpair).2)

end Engine

/-! ### Receivers -/

namespace Scenario

variable {s : Store} {e : CallEntry} {c : ClassId} {args : List Ty} {p : ParamId}

theorem mem_classParams_of_callerScope {caller : Option ClassId} {name : String}
    (h : (callerScope caller s).get? name = some p) :
    ∃ c, caller = some c ∧ p ∈ s.classParams c := by
  cases caller with
  | none => cases h
  | some c =>
    rcases Substitution.get?_putAll_eq_some h with hempty | hmem
    · cases hempty
    · obtain ⟨q, hq, heq⟩ := List.mem_filterMap.1 hmem
      obtain ⟨d, _, heq⟩ := Option.map_eq_some_iff.1 heq
      cases heq
      exact ⟨c, rfl, hq⟩

theorem classNamed?_of_caller (h : e.caller.mapM (classOf s) = .ok (some c)) :
    e.caller.bind s.classNamed? = some c := by
  cases hcaller : e.caller with
  | none =>
    rw [hcaller] at h
    cases h
  | some name =>
    rw [hcaller] at h
    obtain ⟨d, hd, h⟩ := exists_of_bind_ok h
    cases h
    unfold classOf at hd
    split at hd
    · rename_i hnamed
      cases hd
      exact hnamed
    · cases hd

/-- A receiver that a call is written with outside of the class of the receiver mentions none of the
type parameters of this class. -/
theorem avoids_of_receiverTy (hs : s.Owned) {t : Ty} (h : receiverTy s e = .ok (some t))
    (hp : p ∈ s.classParams c) (hcaller : e.caller.bind s.classNamed? ≠ some c) :
    t.mentions p = false := by
  obtain ⟨caller, input, hmapped, hread⟩ := exists_caller_of_receiverTy h
  have hscope : ∀ name q, (callerScope caller s).get? name = some q → q ∉ [p] := by
    intro name q hq hmem
    obtain rfl := List.mem_singleton.1 hmem
    obtain ⟨d, rfl, hd⟩ := mem_classParams_of_callerScope hq
    have heq := (hs.ownerOf?_classParams hd).symm.trans (hs.ownerOf?_classParams hp)
    cases heq
    exact hcaller (classNamed?_of_caller hmapped)
  exact TypeExpr.avoids_of_read hscope (read_of_readType hread) p List.mem_cons_self

/-- A receiver binds a parameter to a type that mentions it exactly if the type argument in its
place mentions it. -/
theorem selfFree_receiverBindings_iff (hs : s.Owned)
    (h : receiverTy s e = .ok (some (.cls c args))) :
    (receiverBindings s (.cls c args)).SelfFree ↔
      ∀ a ∈ (s.classParams c).zip args, a.2.mentions a.1 = false := by
  cases args with
  | nil => exact iff_of_true (Substitution.selfFree_raw _) (by simp)
  | cons u us =>
    exact Substitution.selfFree_ofArgs_iff (hs.nodup_classParams c) (length_of_receiverTy h nofun)

theorem selfFree_given_iff {d : Document} {sc : Scenario} {call : CallId}
    (hload : ofDocument d = .ok sc) (he : d.calls[call]? = some e) :
    ∃ site, sc.calls.site? call = some site ∧
      (site.given.SelfFree ↔ ∀ c args, receiverTy sc.store e = .ok (some (.cls c args)) →
        ∀ a ∈ (sc.store.classParams c).zip args, a.2.mentions a.1 = false) := by
  obtain ⟨howned, site, hsite, _, r, hr, hgiven⟩ := exists_site_of_ofDocument hload he
  refine ⟨site, hsite, ?_⟩
  rw [hgiven, hr]
  have hempty : ∀ u, (∀ c args, u ≠ some (Ty.cls c args)) →
      (u.map (receiverBindings sc.store)).getD .empty = .empty := by
    intro u hu
    cases u with
    | none => rfl
    | some t =>
      cases t with
      | cls c args => exact absurd rfl (hu c args)
      | _ => rfl
  by_cases hcls : ∃ c args, r = some (.cls c args)
  · obtain ⟨c, args, rfl⟩ := hcls
    refine (selfFree_receiverBindings_iff howned hr).trans ⟨fun h c' args' heq => ?_, fun h => ?_⟩
    · cases heq
      exact h
    · exact h c args rfl
  · rw [hempty r fun c args heq => hcls ⟨c, args, heq⟩]
    exact iff_of_true Substitution.selfFree_empty fun c args heq =>
      absurd ⟨c, args, Except.ok.inj heq⟩ hcls

/-- Inference makes no binding that mentions its own parameter: it leaves the parameter as it was
given. Pairs of types make one exactly if the types say so, and not if neither the types nor the
declarations bring the parameter in. A receiver makes one exactly if it is written so, which it
cannot be outside of its own class. -/
theorem self_references_iff (engine : Engine) (r : Request) (session : Session)
    {params : List ParamId} {formals types : List Ty} {σ : Substitution}
    (hσ : Engine.inferPairs s params formals types = .ok σ) {d : Document} {sc : Scenario}
    {call : CallId} (hload : ofDocument d = .ok sc) (he : d.calls[call]? = some e) :
    ((r.given.SelfFree → (engine.infer r session).1.SelfFree) ∧
      ((engine.infer r session).1 = r.given.eraseAll r.typeParams ∨ ∀ p,
        (∀ t, (p, some t) ∈ r.typeParams.zip
          (Engine.found engine.store r (engine.verdicts r session)) → t.mentions p = true) →
        (engine.infer r session).1.get? p = r.given.get? p)) ∧
    ((σ.SelfFree ↔ ∀ p ∈ params, ∀ t,
        s.EvidenceGives (Engine.pairResults s (formals.zip types) p) t → t.mentions p = false) ∧
      ((∀ p ∈ params, s.KeepsOut [p] ∧ Ty.AllAvoid [p] types) → σ.SelfFree)) ∧
    ∃ site, sc.calls.site? call = some site ∧
      (site.given.SelfFree ↔ ∀ c args, receiverTy sc.store e = .ok (some (.cls c args)) →
        ∀ a ∈ (sc.store.classParams c).zip args, a.2.mentions a.1 = false) ∧
      ((∀ c args, receiverTy sc.store e = .ok (some (.cls c args)) →
        e.caller.bind sc.store.classNamed? ≠ some c) → site.given.SelfFree) := by
  refine ⟨⟨fun hgiven => Engine.selfFree_infer engine hgiven session,
      Engine.left_out_of_mentions engine r session⟩,
    ⟨Engine.selfFree_inferPairs_iff hσ, Engine.selfFree_of_avoids hσ⟩, ?_⟩
  obtain ⟨site, hsite, hiff⟩ := selfFree_given_iff hload he
  refine ⟨site, hsite, hiff, fun houtside => hiff.2 fun c args hr a ha => ?_⟩
  have hs := (exists_site_of_ofDocument hload he).1
  have havoid := avoids_of_receiverTy hs hr (List.of_mem_zip ha).1 (houtside c args hr)
  exact Ty.mentionsAny_eq_false_iff.1 havoid a.2 (List.of_mem_zip ha).2

/-- An argument `List<T>` for a formal `T` leaves `T` out. Lists of integers and of doubles for
formals `List<? super T>`, and a receiver `ArrayList<String>`, bind no parameter to a type that
mentions it. -/
theorem self_references_iff_lists :
    let r := Engine.joinOf [.cls 13 [.param 19]]
    r.given.SelfFree ∧ (Engine.listJoin.infer r {}).1.SelfFree ∧
    (Engine.listJoin.infer r {}).1.get? 19 = none ∧
    (∃ σ, Engine.inferPairs Engine.sorting [19] [Engine.sink, Engine.sink]
        [.cls 13 [.raw 9], .cls 13 [.raw 12]] = .ok σ ∧ σ.SelfFree) ∧
    ofDocument listDocument = .ok listScenario ∧
    ∃ site, listScenario.calls.site? 1 = some site ∧ site.given.SelfFree := by
  intro r
  obtain ⟨σ, hσ⟩ : ∃ σ, Engine.inferPairs Engine.sorting [19] [Engine.sink, Engine.sink]
    [.cls 13 [.raw 9], .cls 13 [.raw 12]] = .ok σ := ⟨_, rfl⟩
  have hcall : listDocument.calls[1]? = some (callOnStrings "first") := rfl
  obtain ⟨⟨hfree, hleft⟩, ⟨_, hpairs⟩, site, hsite, _, houtside⟩ :=
    self_references_iff Engine.listJoin r {} hσ ofDocument_listDocument hcall
  have hgiven : r.given.SelfFree := Substitution.selfFree_empty
  have hfound : r.typeParams.zip (Engine.found Engine.listJoin.store r
      (Engine.listJoin.verdicts r {})) = [(19, some (.cls 13 [.param 19]))] := rfl
  have hkept : Engine.sorting.KeepsOut [19] :=
    Store.keepsOut_of_declared (by decide +kernel) (by decide +kernel) (by decide +kernel)
  refine ⟨hgiven, hfree hgiven, ?_, ⟨σ, hσ, hpairs fun p hp => ?_⟩, ofDocument_listDocument,
    site, hsite, houtside fun c args _ => nofun⟩
  · rcases hleft with herased | hleft
    · cases congrArg (fun σ : Substitution => σ.get? 19) herased
    · refine hleft 19 fun t ht => ?_
      rw [hfound] at ht
      cases List.mem_singleton.1 ht
      rfl
  · obtain rfl := List.mem_singleton.1 hp
    exact ⟨hkept, by decide⟩

/-- A class `Box<T>` that declares `get`, and a call of it in `Box` for a `Box<Box<T>>`. -/
def boxDocument : Document where
  classes := [{ name := "Box", typeParams := [{ name := "T" }] }]
  methods := [{ name := "get", owner := some "Box", returns := some "T" }]
  calls := [{
    id := "get"
    candidates := ["get"]
    receiver := some "Box<Box<T>>"
    caller := some "Box" }]

def boxScenario : Scenario := (ofDocument boxDocument).toOption.getD default

theorem ofDocument_boxDocument : ofDocument boxDocument = .ok boxScenario :=
  ofDocument_eq_of_isSome (by decide +kernel)

/-- A `List<T>` in place of which a `List<List<T>>` stands, and a receiver `Box<Box<T>>` in `Box`.
-/
theorem bound_to_own_list :
    (∃ σ, Engine.inferPairs Engine.sorting [19] [.cls 13 [.param 19]]
        [.cls 13 [.cls 13 [.param 19]]] = .ok σ ∧ σ.get? 19 = some (.bound (.cls 13 [.param 19]))) ∧
    (Ty.cls 13 [.param 19]).mentions 19 = true ∧
    ofDocument boxDocument = .ok boxScenario ∧
    (boxScenario.calls.site? 0).bind (fun site => site.given.ty? 14) =
      some (.cls 13 [.param 14]) ∧
    (Ty.cls 13 [.param 14]).mentions 14 = true :=
  ⟨⟨_, rfl, rfl⟩, rfl, ofDocument_boxDocument,
    Ty.eq_some_of_same (by decide) (by decide +kernel), rfl⟩

end Scenario

end GenericCalls
