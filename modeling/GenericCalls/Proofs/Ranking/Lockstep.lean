import GenericCalls.Proofs.Ranking.Nesting
import GenericCalls.Proofs.Session.Lockstep

/-! # Rankings in step

A ranking walks through the calls of a program: down to a call that is an argument, unless it is
blocked, and up to the call whose argument it ranks, which is blocked meanwhile. Two graphs look
alike from a place of this walk if the calls that the walk meets from there on are the same in both,
up to arguments that are blocked in one and not typed in the other. Rankings in graphs that look
alike are in step. -/

namespace GenericCalls

/-! ### Arguments that look alike -/

/-- Two typed arguments of one type, which are one call if they have a type. -/
def TypedArg.Alike (a b : TypedArg) : Prop := a.ty = b.ty ∧ (a.ty = none ∨ a.call = b.call)

theorem TypedArg.Alike.refl (a : TypedArg) : a.Alike a := ⟨rfl, .inr rfl⟩

/-- Two arguments that are the same, or of which the first is a blocked call and the second has no
known type. -/
inductive Argument.Alike (u : CallGuard) : Argument → Argument → Prop where
  | same (a : Argument) : Alike u a a
  | blocked {c : CallId} (h : u.isBlocked c = true) : Alike u (.call c) (.known none)

theorem Argument.Alike.of_blocked {u v : CallGuard} {a b : Argument} (h : Argument.Alike u a b)
    (hblocked : v.blocked = u.blocked) : Argument.Alike v a b := by
  cases h with
  | same a => exact .same a
  | blocked h =>
    refine .blocked ?_
    unfold CallGuard.isBlocked at h ⊢
    rw [hblocked, h]

/-- Two graphs hold nothing under an id, or the same call up to arguments that look alike. -/
inductive CallGraph.AlikeAt (f g : CallGraph) (u : CallGuard) (call : CallId) : Prop where
  | unknown (h : f.site? call = none) (h' : g.site? call = none)
  | known {site : CallSite} {args : List Argument} (h : f.site? call = some site)
      (h' : g.site? call = some { site with args }) (hid : site.id = call)
      (hargs : List.Forall₂ (Argument.Alike u) site.args args)

theorem CallGraph.AlikeAt.of_eq {f g : CallGraph} {u : CallGuard} {call : CallId}
    (hid : ∀ {site}, f.site? call = some site → site.id = call)
    (h : g.site? call = f.site? call) : f.AlikeAt g u call := by
  cases hsite : f.site? call with
  | none => exact .unknown hsite (h.trans hsite)
  | some site =>
    exact .known hsite (h.trans hsite) (hid hsite) (List.forall₂_same.2 fun a _ => .same a)

/-- The graph `g` looks to a ranking like the graph of the engine: the property `At` holds of every
call and the calls in use with which its ranking starts, it leads from one ranking to those within
it, and the graphs look alike where it holds. The calls `keys` may be evaluated in addition, since
they are none of those that a ranking evaluates where `At` holds. -/
structure Engine.Tracks (e : Engine) (g : CallGraph) (keys : List CallId)
    (At : CallId → CallGuard → Prop) : Prop where
  same : ∀ {call u v}, u.SameUse v → At call u → At call v
  site : ∀ {call u}, At call u → e.calls.AlikeAt g u call
  enters : ∀ {call u site c}, At call u → e.calls.site? call = some site →
    Argument.call c ∈ site.args → u.isBlocked c = false → u.evaluating.EntersAlike keys c
  down : ∀ {call u site c h}, At call u → e.calls.site? call = some site →
    Argument.call c ∈ site.args → u.isBlocked c = false → u.evaluating.enter c = (.entered, h) →
    At c { u with evaluating := h }
  up : ∀ {call u site outer index h}, At call u → e.calls.site? call = some site →
    site.context = .argument outer index → u.context.enter outer = (.entered, h) →
    At outer ({ u with context := h }.block call)

namespace Engine
open Run

def withCalls (e : Engine) (g : CallGraph) : Engine := { e with calls := g }

inductive RequestsAlike : Request → Request → Prop where
  | intro {r : Request} {args : List TypedArg} (h : List.Forall₂ TypedArg.Alike r.args args) :
      RequestsAlike r { r with args }

/-- Two ways to rank a call are in step wherever `At` holds. -/
def RankInStep (keys : List CallId) (At : CallId → CallGuard → Prop)
    (rank rank' : CallId → Run Ranked) : Prop :=
  ∀ call s, At call s.guard → InStep keys Eq (rank call) (rank' call) s

variable {e : Engine} {g : CallGraph} {keys : List CallId} {At : CallId → CallGuard → Prop}
  {rank rank' : CallId → Run Ranked} {r r' : Request} {s : Session} {call : CallId}
  {site : CallSite} {as bs : List TypedArg}

/-! ### What arguments tell -/

theorem filterMap_slots_eq {β : Type} (F : Nat → Ty → Option β) (blocked : CallId → Bool)
    (h : List.Forall₂ TypedArg.Alike as bs) (k : Nat) :
    (bs.zipIdx k).filterMap (fun (a, i) => if a.call.any blocked then none else a.ty.bind (F i)) =
      (as.zipIdx k).filterMap fun (a, i) =>
        if a.call.any blocked then none else a.ty.bind (F i) := by
  induction h generalizing k with
  | nil => rfl
  | @cons a b as bs hab _ ih =>
    have hhead : (if b.call.any blocked then none else b.ty.bind (F k)) =
        if a.call.any blocked then none else a.ty.bind (F k) := by
      obtain ⟨hty, hnone | hcall⟩ := hab
      · rw [← hty, hnone]
        simp
      · rw [hty, hcall]
    rw [List.zipIdx_cons, List.zipIdx_cons, List.filterMap_cons, List.filterMap_cons, ih]
    dsimp only
    rw [hhead]

theorem slots_eq_of_alike (h : RequestsAlike r r') (blocked : CallId → Bool) :
    r'.slots blocked = r.slots blocked := by
  cases h with | @intro args hargs =>
  have hslot : Request.slot? { r with args } = Request.slot? r := by
    funext index t
    unfold Request.slot?
    simp only [hargs.length_eq]
  unfold Request.slots
  rw [hslot]
  exact filterMap_slots_eq r.slot? blocked hargs 0

theorem argumentVerdict_eq_of_alike (h : RequestsAlike r r') (st : Store)
    (blocked : CallId → Bool) (p : ParamId) :
    r'.argumentVerdict st blocked p = r.argumentVerdict st blocked p := by
  unfold Request.argumentVerdict Request.results
  rw [slots_eq_of_alike h]

def typeOnly (a : TypedArg) : TypedArg := { ty := a.ty }

theorem map_typeOnly_eq (h : List.Forall₂ TypedArg.Alike as bs) :
    bs.map typeOnly = as.map typeOnly := by
  induction h with
  | nil => rfl
  | cons hab _ ih => rw [List.map_cons, List.map_cons, ih, typeOnly, typeOnly, hab.1]

theorem fitAll_typeOnly (st : Store) (strict : Bool) (formals : List Ty) (args : List TypedArg) :
    fitAll st strict formals (args.map typeOnly) = fitAll st strict formals args := by
  unfold fitAll
  rw [List.zip_map_right, List.all_map]
  rfl

theorem phaseOf_typeOnly (st : Store) (method : MethodDecl) (σ : Substitution)
    (args : List TypedArg) :
    phaseOf st method σ (args.map typeOnly) = phaseOf st method σ args := by
  have hvariadic (formals : List Ty) :
      fitVariadic st formals (args.map typeOnly) = fitVariadic st formals args := by
    unfold fitVariadic
    cases formals.getLast?.bind Ty.component? with
    | none => rfl
    | some c =>
      dsimp only
      rw [← List.map_take, ← List.map_drop, fitAll_typeOnly, List.length_map, List.all_map]
      rfl
  unfold phaseOf
  simp only [fitAll_typeOnly, hvariadic, List.length_map]

theorem phaseOf_eq_of_alike (h : List.Forall₂ TypedArg.Alike as bs) (st : Store)
    (method : MethodDecl) (σ : Substitution) :
    phaseOf st method σ bs = phaseOf st method σ as := by
  rw [← phaseOf_typeOnly, map_typeOnly_eq h, phaseOf_typeOnly]

/-! ### Inference -/

theorem contextSite?_of_alike (ht : e.Tracks g keys At) (hat : At call s.guard)
    (hr : RequestsAlike r r') (hcall : r.call = some call) (p : ParamId) :
    (e.contextSite? p r = none ∧ (e.withCalls g).contextSite? p r' = none) ∨
      ∃ site args, e.calls.site? call = some site ∧ e.contextSite? p r = some site ∧
        (e.withCalls g).contextSite? p r' = some { site with args } := by
  cases hr with | @intro args _ =>
  unfold contextSite? withCalls
  simp only [hcall, Option.bind_some]
  split
  · cases ht.site hat with
    | unknown h h' =>
      rw [h, h']
      exact .inl ⟨rfl, rfl⟩
    | @known site args h h' _ _ =>
      rw [h, h', Option.filter_some, Option.filter_some]
      by_cases hkind : (site.kind == .method) = true
      · rw [if_pos hkind, if_pos hkind]
        exact .inr ⟨site, args, rfl, rfl, rfl⟩
      · rw [if_neg hkind, if_neg hkind]
        exact .inl ⟨rfl, rfl⟩
  · exact .inl ⟨rfl, rfl⟩

theorem inStep_fromOuterCall? (ht : e.Tracks g keys At) (hrank : RankInStep keys At rank rank')
    (hat : At call s.guard) (hsite : e.calls.site? call = some site) {outer : CallId}
    {index : Nat} (hcontext : site.context = .argument outer index) (p : ParamId)
    (returns : Ty) :
    InStep keys Eq (e.fromOuterCall? rank p call outer index returns)
      ((e.withCalls g).fromOuterCall? rank' p call outer index returns) s := by
  unfold fromOuterCall?
  refine inStep_bind (inStep_consulting fun h he => hrank outer _ ?_) ?_
  · exact ht.up hat hsite hcontext he
  · rintro ranked _ t rfl _
    split
    · exact inStep_pure rfl
    · exact inStep_pure rfl

theorem inStep_fromContext? (ht : e.Tracks g keys At) (hrank : RankInStep keys At rank rank')
    (hat : At call s.guard) (hr : RequestsAlike r r') (hcall : r.call = some call) (p : ParamId) :
    InStep keys Eq (e.fromContext? rank p r) ((e.withCalls g).fromContext? rank' p r') s := by
  have hcall' : r'.call = some call := by
    obtain ⟨_⟩ := hr
    exact hcall
  have hexpected (t : Option Ty) :
      (e.withCalls g).fromExpected p r' t = e.fromExpected p r t := by
    obtain ⟨_⟩ := hr
    rfl
  have hreturns : r'.method.returns = r.method.returns := by
    obtain ⟨_⟩ := hr
    rfl
  unfold fromContext?
  rcases contextSite?_of_alike ht hat hr hcall p with ⟨h, h'⟩ | ⟨site, args, hsite, h, h'⟩
  · simp only [hcall, hcall', h, h']
    exact inStep_pure rfl
  · simp only [hcall, hcall', h, h', hexpected, hreturns]
    cases hcontext : site.context with
    | argument outer index =>
      have hoptions : (e.withCalls g).options = e.options := rfl
      simp only [hoptions]
      by_cases hu : e.options.usesOuterContext = true
      · simp only [hu, if_true]
        refine inStep_bind (inStep_fromOuterCall? ht hrank hat hsite hcontext p _) ?_
        rintro c _ t rfl _
        cases c with
        | some c => exact inStep_pure rfl
        | none => exact inStep_pure rfl
      · simp only [hu]
        exact inStep_pure rfl
    | _ => exact inStep_pure rfl

theorem inStep_judge (ht : e.Tracks g keys At) (hrank : RankInStep keys At rank rank')
    (hat : At call s.guard) (hr : RequestsAlike r r') (hcall : r.call = some call) (p : ParamId) :
    InStep keys Eq (e.judge rank r p) ((e.withCalls g).judge rank' r' p) s := by
  have hget : InStep keys (fun a b => b = a.under keys) (get : Run Session) get s :=
    .inl ⟨s, s.under keys, s, rfl, rfl, rfl, .refl _⟩
  unfold judge
  refine inStep_bind hget ?_
  rintro a _ t rfl hst
  have hverdict : r'.argumentVerdict e.store (a.under keys).guard.isBlocked p =
      r.argumentVerdict e.store a.guard.isBlocked p := argumentVerdict_eq_of_alike hr ..
  have hstore : (e.withCalls g).store = e.store := rfl
  simp only [hstore, hverdict]
  split
  · exact inStep_pure rfl
  · refine inStep_bind (inStep_fromContext? ht hrank (ht.same hst hat) hr hcall p) ?_
    rintro c _ u rfl _
    exact inStep_pure rfl

theorem inStep_judgeAll (ht : e.Tracks g keys At) (hrank : RankInStep keys At rank rank')
    (hat : At call s.guard) (hr : RequestsAlike r r') (hcall : r.call = some call)
    (ps : List ParamId) :
    InStep keys Eq (e.judgeAll rank r ps) ((e.withCalls g).judgeAll rank' r' ps) s := by
  induction ps generalizing s with
  | nil => exact inStep_pure rfl
  | cons p ps ih =>
    unfold judgeAll
    refine inStep_bind (inStep_judge ht hrank hat hr hcall p) ?_
    rintro v _ t rfl hst
    refine inStep_bind (ih (ht.same hst hat)) ?_
    rintro vs _ u rfl _
    exact inStep_pure rfl

theorem conclude_eq_of_alike (hr : RequestsAlike r r') (st : Store) (vs : List Verdict) :
    conclude st r' vs = conclude st r vs := by
  obtain ⟨_⟩ := hr
  rfl

theorem inStep_inferWith (ht : e.Tracks g keys At) (hrank : RankInStep keys At rank rank')
    (hat : At call s.guard) (hr : RequestsAlike r r') (hcall : r.call = some call) :
    InStep keys Eq (e.inferWith rank r) ((e.withCalls g).inferWith rank' r') s := by
  have hparams : r'.typeParams = r.typeParams := by
    obtain ⟨_⟩ := hr
    rfl
  unfold inferWith
  rw [hparams]
  refine inStep_bind (inStep_judgeAll ht hrank hat hr hcall _) ?_
  rintro vs _ t rfl _
  exact inStep_pure (conclude_eq_of_alike hr e.store vs).symm

/-! ### Typing arguments -/

theorem inStep_typeOfRanked (e : Engine) (g : CallGraph) (ranked : Ranked) :
    InStep keys Eq (e.typeOfRanked ranked) ((e.withCalls g).typeOfRanked ranked) s := by
  have hstore : (e.withCalls g).store = e.store := rfl
  unfold typeOfRanked
  simp only [hstore]
  split
  · exact inStep_pure rfl
  · split
    · exact inStep_pure rfl
    · split
      · exact inStep_pure rfl
      · refine inStep_bind (inStep_capture _) ?_
        rintro t _ u rfl _
        exact inStep_pure rfl

theorem inStep_callTypeWith (ht : e.Tracks g keys At) (hrank : RankInStep keys At rank rank')
    (hat : At call s.guard) (hsite : e.calls.site? call = some site) {c : CallId}
    (hc : Argument.call c ∈ site.args) (hfree : s.guard.isBlocked c = false) :
    InStep keys Eq (e.callTypeWith rank c) ((e.withCalls g).callTypeWith rank' c) s := by
  unfold callTypeWith
  refine inStep_bind (inStep_evaluating (ht.enters hat hsite hc hfree) fun h he => ?_) ?_
  · exact hrank c _ (ht.down hat hsite hc hfree he)
  · rintro ranked _ t rfl _
    cases ranked with
    | none => exact inStep_pure rfl
    | some ranked => exact inStep_typeOfRanked e g ranked

theorem inStep_typeArg (ht : e.Tracks g keys At) (hrank : RankInStep keys At rank rank')
    (hat : At call s.guard) (hsite : e.calls.site? call = some site) {a b : Argument}
    (ha : a ∈ site.args) (hab : Argument.Alike s.guard a b) :
    InStep keys TypedArg.Alike (e.typeArg rank a) ((e.withCalls g).typeArg rank' b) s := by
  have hblocked (c : CallId) : InStep keys (fun x y => x = s.guard.isBlocked c ∧ y = x)
      (isBlocked c) (isBlocked c) s :=
    .inl ⟨_, _, s, rfl, rfl, ⟨rfl, rfl⟩, .refl _⟩
  cases hab with
  | same a =>
    cases a with
    | known ty =>
      cases ty with
      | none => exact inStep_pure (.refl _)
      | some t =>
        refine inStep_bind (inStep_capture t) ?_
        rintro c _ u rfl _
        exact inStep_pure (.refl _)
    | call c =>
      refine inStep_bind (hblocked c) ?_
      rintro b _ t ⟨rfl, rfl⟩ hst
      cases hb : s.guard.isBlocked c with
      | true => exact inStep_pure (.refl _)
      | false =>
        have hfree : t.guard.isBlocked c = false := by rw [hst.isBlocked_eq, hb]
        refine inStep_bind (inStep_callTypeWith ht hrank (ht.same hst hat) hsite ha hfree) ?_
        rintro ty _ u rfl _
        exact inStep_pure (.refl _)
  | @blocked c h =>
    have hrun : (e.typeArg rank (.call c)).run s = .ok ({ call := some c }, s) := by
      unfold typeArg
      rw [run_bind_of_ok (a := true) (t := s) (by rw [← h]; rfl)]
      rfl
    exact .inl ⟨_, {}, s, hrun, rfl, ⟨rfl, .inl rfl⟩, .refl _⟩

theorem inStep_typeArgs (ht : e.Tracks g keys At) (hrank : RankInStep keys At rank rank')
    (hat : At call s.guard) (hsite : e.calls.site? call = some site) {args args' : List Argument}
    (hargs : ∀ a ∈ args, a ∈ site.args) {u : CallGuard} (hblocked : s.guard.blocked = u.blocked)
    (halike : List.Forall₂ (Argument.Alike u) args args') :
    InStep keys (List.Forall₂ TypedArg.Alike) (e.typeArgs rank args)
      ((e.withCalls g).typeArgs rank' args') s := by
  induction halike generalizing s with
  | nil => exact inStep_pure .nil
  | cons hab _ ih =>
    obtain ⟨ha, hrest⟩ := List.forall_mem_cons.1 hargs
    unfold typeArgs
    refine inStep_bind (inStep_typeArg ht hrank hat hsite ha (hab.of_blocked hblocked)) ?_
    intro x y t hxy hst
    refine inStep_bind (ih (ht.same hst hat) hrest (hst.blocked.trans hblocked)) ?_
    intro xs ys u hxys _
    exact inStep_pure (.cons hxy hxys)

/-! ### Ranking -/

theorem inStep_candidateSubstitution (ht : e.Tracks g keys At)
    (hrank : RankInStep keys At rank rank') (hat : At call s.guard) (hid : site.id = call)
    (has : List.Forall₂ TypedArg.Alike as bs) (args : List Argument) (method : MethodDecl) :
    InStep keys Eq (e.candidateSubstitution rank site method as)
      ((e.withCalls g).candidateSubstitution rank' { site with args } method bs) s := by
  unfold candidateSubstitution
  split
  · exact inStep_pure rfl
  · split
    · exact inStep_inferWith ht hrank hat (.intro has) (congrArg some hid)
    · split
      · exact inStep_pure rfl
      · exact inStep_pure rfl

theorem inStep_rankCandidates (ht : e.Tracks g keys At) (hrank : RankInStep keys At rank rank')
    (hat : At call s.guard) (hid : site.id = call) (has : List.Forall₂ TypedArg.Alike as bs)
    (args : List Argument) (ids : List MethodId) :
    InStep keys Eq (e.rankCandidates rank site as ids)
      ((e.withCalls g).rankCandidates rank' { site with args } bs ids) s := by
  have hstore : (e.withCalls g).store = e.store := rfl
  have haccess : (e.withCalls g).access = e.access := rfl
  induction ids generalizing s with
  | nil => exact inStep_pure rfl
  | cons id rest ih =>
    unfold rankCandidates
    rw [hstore]
    cases e.store.method? id with
    | none => exact inStep_pure rfl
    | some method =>
      have hc : InStep keys Eq (e.rankCandidate rank site as id method)
          ((e.withCalls g).rankCandidate rank' { site with args } bs id method) s := by
        unfold rankCandidate
        refine inStep_bind (inStep_candidateSubstitution ht hrank hat hid has args method) ?_
        rintro σ _ t rfl _
        rw [hstore, haccess, phaseOf_eq_of_alike has]
        exact inStep_pure rfl
      refine inStep_bind hc ?_
      -- The session after one candidate is at the same place for the next.
      rintro c _ t rfl hst
      refine inStep_bind (ih (ht.same hst hat)) ?_
      rintro cs _ u rfl _
      cases cs with
      | ok cs => exact inStep_pure rfl
      | error err => exact inStep_pure rfl

theorem inStep_rankKnown (ht : e.Tracks g keys At) (hrank : RankInStep keys At rank rank')
    (hat : At call s.guard) :
    InStep keys Eq (e.rankKnown rank call) ((e.withCalls g).rankKnown rank' call) s := by
  have hcalls : (e.withCalls g).calls = g := rfl
  unfold rankKnown
  rw [hcalls]
  cases ht.site hat with
  | unknown h h' =>
    rw [h, h']
    exact inStep_pure rfl
  | @known site args hsite hsite' hid hargs =>
    rw [hsite, hsite']
    dsimp only
    unfold rankSiteWith
    refine inStep_bind (inStep_typeArgs ht hrank hat hsite (fun _ ha => ha) rfl hargs) ?_
    intro as bs t has hst
    refine inStep_bind (inStep_rankCandidates ht hrank (ht.same hst hat) hid has args _) ?_
    rintro cs _ u rfl _
    cases cs with
    | ok cs => exact inStep_pure rfl
    | error err => exact inStep_pure rfl

theorem inStep_rankWithin (ht : e.Tracks g keys At) (n : Nat) :
    RankInStep keys At (e.rankWithin n) ((e.withCalls g).rankWithin n) := by
  induction n with
  | zero => exact fun call s _ => inStep_throw .nestedTooDeep
  | succ n ih => exact fun call s hat => inStep_rankKnown ht ih hat

end Engine

end GenericCalls
