import GenericCalls.Proofs.Call.Forest
import GenericCalls.Proofs.Ranking.Lockstep

/-! # Blocked calls

A call is blocked while the call around it is consulted for the type that it expects. A ranking does
then not look at the blocked call: it takes it for an argument without type. In a forest it does not
reach anything within the blocked call either, since there is no way in but the slot of that call.
So no call takes part in the evidence for its own type. -/

namespace GenericCalls

/-- The graph with an argument of a call replaced by one of no known type. -/
def CallGraph.untype (g : CallGraph) (site : CallSite) (index : Nat) : CallGraph :=
  g.insert { site with args := site.args.set index (.known none) }

namespace Engine
open Run

variable {e : Engine} {g : CallGraph} {inner outer : CallId} {site : CallSite} {index : Nat}

/-! ### Walks past a blocked call -/

theorem alike_set {u : CallGuard} {args : List Argument} (hslot : args[index]? = some (.call inner))
    (hblocked : u.isBlocked inner = true) :
    List.Forall₂ (Argument.Alike u) args (args.set index (.known none)) := by
  induction args generalizing index with
  | nil => exact .nil
  | cons a args ih =>
    cases index with
    | zero =>
      obtain rfl : a = .call inner := Option.some.inj hslot
      exact .cons (.blocked hblocked) (List.forall₂_same.2 fun b _ => .same b)
    | succ index => exact .cons (.same a) (ih hslot)

/-- While a call is blocked, a ranking does not tell its slot from one without a type. -/
theorem tracks_untype (hkeyed : e.calls.Keyed) (hsite : e.calls.site? outer = some site)
    (hslot : site.args[index]? = some (.call inner)) :
    e.Tracks (e.calls.untype site index) [] fun _ u => u.isBlocked inner = true where
  same h hblocked := by rw [h.isBlocked_eq, hblocked]
  site := by
    intro call u hu
    have hid : site.id = outer := hkeyed hsite
    have hsite' : (e.calls.untype site index).site? call = if outer = call then
        some { site with args := site.args.set index (.known none) } else e.calls.site? call := by
      unfold CallGraph.untype
      rw [CallGraph.site?_insert, hid]
    by_cases hcall : outer = call
    · subst hcall
      rw [if_pos rfl] at hsite'
      exact .known hsite hsite' hid (alike_set hslot hu)
    · rw [if_neg hcall] at hsite'
      exact .of_eq hkeyed hsite'
  enters _ _ _ _ := RecursionGuard.entersAlike_nil _ _
  down hu _ _ _ _ := hu
  up hu _ _ _ := CallGuard.isBlocked_block_of_isBlocked hu _

/-- While a call is blocked, a ranking that starts outside of it meets nothing within it. -/
theorem tracks_outside (hforest : e.calls.Forest)
    (hsame : ∀ call, ¬e.calls.Within inner call → g.site? call = e.calls.site? call) :
    e.Tracks g [] fun call u => u.isBlocked inner = true ∧ ¬e.calls.Within inner call where
  same h hat := ⟨by rw [h.isBlocked_eq, hat.1], hat.2⟩
  site hat := .of_eq hforest.keyed (hsame _ hat.2)
  enters _ _ _ _ := RecursionGuard.entersAlike_nil _ _
  down := by
    rintro call u site c h ⟨hblocked, houtside⟩ hsite hc hfree _
    have hne : c ≠ inner := by
      rintro rfl
      rw [hblocked] at hfree
      cases hfree
    -- The way into `inner` leads through its own slot, which is skipped.
    exact ⟨hblocked, fun hwithin =>
      houtside (hforest.within_of_nests hwithin hne ⟨site, hsite, hc⟩)⟩
  up := by
    rintro call u site outer index h ⟨hblocked, houtside⟩ hsite hcontext _
    have hnests := (hforest.placed hsite hcontext).nests
    have hstill := CallGuard.isBlocked_block_of_isBlocked hblocked call
    exact ⟨hstill, fun hwithin => houtside (hwithin.tail hnests)⟩

/-! ### Rankings past a blocked call -/

theorem rankCall_eq_of_inStep {call : CallId} {s : Session}
    (h : InStep [] Eq (e.rankWithin s.nesting call) ((e.withCalls g).rankWithin s.nesting call) s) :
    (e.withCalls g).rankCall call s = e.rankCall call s := by
  unfold rankCall settle
  rw [h.run_eq]

theorem inStep_consulted (hforest : e.calls.Forest)
    (hsame : ∀ call, ¬e.calls.Within inner call → g.site? call = e.calls.site? call)
    (hnests : e.calls.Nests outer inner) (n : Nat) (p : ParamId) (returns : Ty) (s : Session) :
    InStep [] Eq (e.fromOuterCall? (e.rankWithin n) p inner outer index returns)
      ((e.withCalls g).fromOuterCall? ((e.withCalls g).rankWithin n) p inner outer index returns)
      s := by
  have ht := tracks_outside hforest hsame
  have houtside := hforest.not_within_of_nests hnests
  unfold fromOuterCall?
  refine inStep_bind (inStep_consulting fun h _ => ?_) ?_
  · exact inStep_rankWithin ht n outer _ ⟨by simp, houtside⟩
  · rintro ranked _ t rfl _
    split
    · exact inStep_pure rfl
    · exact inStep_pure rfl

/-- In a forest of calls, let `inner` be an argument of `outer`. While `inner` is blocked, the
ranking of `outer` and the session it leaves are what they are when the slot of `inner` is an
argument of no known type. What is nested in `inner`, its candidates and its context play no part in
them, whatever is blocked besides, nor in the constraint that `outer` puts on a type parameter of
`inner`. -/
theorem blocked_call_ignored (e : Engine) (hforest : e.calls.Forest)
    (hsite : e.calls.site? outer = some site) (hslot : site.args[index]? = some (.call inner)) :
    (∀ s : Session, s.guard.isBlocked inner = true →
      (e.withCalls (e.calls.untype site index)).rankCall outer s = e.rankCall outer s) ∧
    ∀ g : CallGraph, (∀ call, ¬e.calls.Within inner call → g.site? call = e.calls.site? call) →
      (∀ s : Session, s.guard.isBlocked inner = true →
        (e.withCalls g).rankCall outer s = e.rankCall outer s) ∧
      ∀ n p returns s,
        ((e.withCalls g).fromOuterCall? ((e.withCalls g).rankWithin n) p inner outer index
          returns).run s =
        (e.fromOuterCall? (e.rankWithin n) p inner outer index returns).run s := by
  have hnests : e.calls.Nests outer inner := ⟨site, hsite, List.mem_of_getElem? hslot⟩
  refine ⟨fun s hblocked => ?_, fun g hsame => ⟨fun s hblocked => ?_, fun n p returns s => ?_⟩⟩
  · have ht := tracks_untype hforest.keyed hsite hslot
    exact rankCall_eq_of_inStep (inStep_rankWithin ht _ outer s hblocked)
  · have ht := tracks_outside hforest hsame
    have houtside := hforest.not_within_of_nests hnests
    exact rankCall_eq_of_inStep (inStep_rankWithin ht _ outer s ⟨hblocked, houtside⟩)
  · exact (inStep_consulted hforest hsame hnests n p returns s).run_eq

def nestingCall : CallSite := { id := 0, candidates := [13], args := [.call 1] }

/-- An engine with a generic method and three calls of it, the second an argument of the first, and
the third an argument of the second. -/
def nestedCalls : Engine :=
  let (s, m) := Store.standard.declareMethod "id" .method none
  let (s, t) := s.declareParam "T" (.method m)
  let s := s.setSignature m [⟨"x", .param t⟩] (.param t) false
  let second : CallSite :=
    { id := 1, candidates := [m], args := [.call 2], context := .argument 0 0 }
  let third : CallSite :=
    { id := 2, candidates := [m], args := [.known (some (.raw 4))], context := .argument 1 0 }
  { store := s, calls := ((CallGraph.empty.insert nestingCall).insert second).insert third }

def nestingCallAlone : Engine := nestedCalls.withCalls (.insert .empty nestingCall)

theorem site?_nestingCallAlone (call : CallId) (houtside : ¬nestedCalls.calls.Within 1 call) :
    nestingCallAlone.calls.site? call = nestedCalls.calls.site? call := by
  have hnests : nestedCalls.calls.Nests 1 2 := ⟨_, rfl, List.mem_singleton.2 rfl⟩
  have hsecond : 1 ≠ call := by
    rintro rfl
    exact houtside (.refl _ 1)
  have hthird : 2 ≠ call := by
    rintro rfl
    exact houtside ((CallGraph.Within.refl _ 1).tail hnests)
  unfold nestedCalls
  rw [CallGraph.site?_insert, if_neg hthird, CallGraph.site?_insert, if_neg hsecond]
  rfl

theorem blocked_call_ignored_nestedCalls :
    nestedCalls.calls.Forest ∧ nestedCalls.calls.site? 0 = some nestingCall ∧
    nestingCall.args[0]? = some (.call 1) ∧ ({ blocked := [1] } : CallGuard).isBlocked 1 = true ∧
    (nestedCalls.withCalls (nestedCalls.calls.untype nestingCall 0)).rankCall 0
        { guard := { blocked := [1] } } =
      nestedCalls.rankCall 0 { guard := { blocked := [1] } } ∧
    nestingCallAlone.rankCall 0 { guard := { blocked := [1] } } =
      nestedCalls.rankCall 0 { guard := { blocked := [1] } } ∧
    (nestingCallAlone.fromOuterCall? (nestingCallAlone.rankWithin 85) 14 1 0 0 (.param 14)).run {} =
      (nestedCalls.fromOuterCall? (nestedCalls.rankWithin 85) 14 1 0 0 (.param 14)).run {} := by
  have hforest : nestedCalls.calls.Forest :=
    CallGraph.forest_of_slots (by decide) (by decide) (by decide) (by decide)
  have hsite : nestedCalls.calls.site? 0 = some nestingCall := rfl
  have hslot : nestingCall.args[0]? = some (.call 1) := rfl
  obtain ⟨huntyped, hpruned⟩ := blocked_call_ignored nestedCalls hforest hsite hslot
  obtain ⟨hrank, hcontext⟩ := hpruned _ site?_nestingCallAlone
  exact ⟨hforest, rfl, rfl, rfl, huntyped _ rfl, hrank _ rfl, hcontext 85 14 _ {}⟩

end Engine

end GenericCalls
