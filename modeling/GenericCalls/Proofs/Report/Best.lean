import GenericCalls.Proofs.Ranking.Independent
import GenericCalls.Proofs.Scenario.Calls
import GenericCalls.Report.Text

/-! # Reports without a best candidate

A report says that no candidate applies when none is best. That is so when none applies, and when
those that apply are shadowed by candidates that may be accessed and do not apply. In every other
report it is told apart from the lines of results. -/

namespace GenericCalls.Report

open Scenario (CallReport)

variable {s : Store} {r : CallReport}

theorem exists_ok_of_any {ε α : Type} {x : Except ε α} {P : α → Bool}
    (h : x.toOption.any P = true) : ∃ a, x = .ok a ∧ P a = true := by
  cases x with
  | error err => cases h
  | ok a => exact ⟨a, rfl, h⟩

def nothingLine (color : Bool) : String := "  " ++ paint color .failure "no applicable candidate"

theorem ne_of_take_ne {a b : String} (n : Nat) (h : a.toList.take n ≠ b.toList.take n) : a ≠ b :=
  fun heq => h (congrArg (fun c => c.toList.take n) heq)

theorem ambiguity_ne_nothingLine (color : Bool) (n : Nat) :
    "  " ++ paint color .ambiguity s!"ambiguous: {n} candidates share the best rank" ≠
      nothingLine color := by
  refine ne_of_take_ne 8 ?_
  cases color with
  | false => simp [nothingLine, paint, String.toList_append, toString]
  | true => simp [nothingLine, paint, String.toList_append, Style.codes, startOf]

theorem result_ne_nothingLine (color : Bool) (text : String) :
    "  result: " ++ text ≠ nothingLine color := by
  refine ne_of_take_ne 8 ?_
  cases color with
  | false => simp [nothingLine, paint, String.toList_append]
  | true => simp [nothingLine, paint, String.toList_append, Style.codes, startOf]

theorem resultLine_eq_nothingLine_iff (color : Bool) :
    resultLine s color r = nothingLine color ↔ r.resolution.best = [] := by
  unfold resultLine
  dsimp only
  split
  · rename_i h
    exact iff_of_true rfl (List.length_eq_zero_iff.1 h)
  · rename_i h
    have hbest : r.resolution.best ≠ [] := fun hnil => h (List.length_eq_zero_iff.2 hnil)
    split
    · exact iff_of_false (ambiguity_ne_nothingLine color _) hbest
    · exact iff_of_false (result_ne_nothingLine color _) hbest

theorem hasApplicable_iff : r.hasApplicable = true ↔ r.resolution.best ≠ [] := by
  simp [CallReport.hasApplicable]

theorem eq_of_reportCall {sc : Scenario} {options : Options} {call : CallId}
    (h : sc.reportCall options call = .ok r) :
    r.name = (sc.callName? call).getD "" ∧ sc.rank options call = .ok r.resolution := by
  unfold Scenario.reportCall at h
  cases hrank : sc.rank options call with
  | error err =>
    rw [hrank] at h
    cases h
  | ok res =>
    rw [hrank] at h
    cases h
    exact ⟨rfl, rfl⟩

theorem exists_call_of_reportCalls {sc : Scenario} {options : Options} {filter : List String}
    {reports : List CallReport} (h : sc.reportCalls options filter = .ok reports)
    (hr : r ∈ reports) :
    ∃ call, r.name = (sc.callName? call).getD "" ∧ sc.rank options call = .ok r.resolution := by
  obtain ⟨calls, _, hreports⟩ := exists_of_bind_ok h
  obtain ⟨call, _, hcall⟩ :=
    exists_mem_of_forall₂ (forall₂_of_mapM_ok hreports).flip hr
  exact ⟨call, eq_of_reportCall hcall⟩

/-- In the ranking of a call site no candidate is best exactly if none applies, or all that apply
are shadowed: they may not be accessed, and some other candidate may. A report on a call without
such shadows says that a candidate applies exactly if one does. One more candidate that does not
apply leaves the best ones as they are, as long as the others are ranked as before, unless it is the
only one that may be accessed; and they are ranked as before where no enclosing call is
consulted. -/
theorem nothing_best_iff :
    (∀ (e : Engine) (site : CallSite) (s : Session) (r : Resolution),
      (e.rankSite site s).1 = .ok r → (r.best = [] ↔ r.applicable = [] ∨ r.Shadowed)) ∧
    (∀ (sc : Scenario) (options : Options) (filter : List String) (reports : List CallReport),
      sc.reportCalls options filter = .ok reports → ∀ r ∈ reports, ¬r.resolution.Shadowed →
        (r.hasApplicable = true ↔ r.resolution.applicable ≠ []) ∧
        ∀ color, resultLine sc.store color r =
            "  " ++ paint color .failure "no applicable candidate" ↔
          r.resolution.applicable = []) ∧
    ∀ (e : Engine) (site : CallSite) (s : Session) (ids ids' : List MethodId) (m : MethodId)
      (r r' : Resolution), (e.rankSite { site with candidates := ids ++ ids' } s).1 = .ok r →
      (e.rankSite { site with candidates := ids ++ m :: ids' } s).1 = .ok r' →
      (∀ c, r'.Adds c r → c.phase.isApplicable = false →
        (c.accessible = true → ∃ d ∈ r.candidates, d.accessible = true) → r'.best = r.best) ∧
      (e.ConsultsNone site.id → ∃ c, e.RankedAlone site s m c ∧ r'.Adds c r) := by
  refine ⟨fun e site s r h => ?_, fun sc options filter reports h r hr hlight => ?_,
    fun e site s ids ids' m r r' h h' => ⟨fun c hadds hc haccess => ?_, fun hnone => ?_⟩⟩
  · exact Resolution.best_eq_nil_iff (Engine.ordered_of_rankSite h)
  · obtain ⟨call, _, hrank⟩ := exists_call_of_reportCalls h hr
    have hbest : r.resolution.best = [] ↔ r.resolution.applicable = [] := by
      rw [Resolution.best_eq_nil_iff (Engine.ordered_of_rankCall hrank), or_iff_left hlight]
    exact ⟨hasApplicable_iff.trans (not_congr hbest),
      fun color => (resultLine_eq_nothingLine_iff color).trans hbest⟩
  · exact hadds.best_eq (Engine.ordered_of_rankSite h) (Engine.ordered_of_rankSite h') hc haccess
  · exact Engine.rankSite_insert hnone h h'

/-- A scenario with one call, of a method that takes a primitive number or of a generic one. -/
def overloadedScenario : Scenario where
  store := Engine.overloads.store
  calls := CallGraph.empty.insert Engine.overloaded
  options := {}
  callNames := ["of"]

theorem nothing_best_iff_overloaded :
    (∃ r, (Engine.overloads.rankSite Engine.overloaded {}).1 = .ok r ∧
      (r.best = [] ↔ r.applicable = [] ∨ r.Shadowed)) ∧
    (∃ reports, overloadedScenario.reportCalls {} [] = .ok reports ∧ ∃ r ∈ reports,
      ¬r.resolution.Shadowed ∧ (r.hasApplicable = true ↔ r.resolution.applicable ≠ [])) ∧
    ∃ r r' c, (Engine.overloads.rankSite { Engine.overloaded with candidates := [14] } {}).1 =
        .ok r ∧
      (Engine.overloads.rankSite { Engine.overloaded with candidates := [13, 14] } {}).1 = .ok r' ∧
      Engine.overloads.ConsultsNone 0 ∧ r'.Adds c r ∧ c.phase.isApplicable = false ∧
      (∃ d ∈ r.candidates, d.accessible = true) ∧ r'.best = r.best := by
  obtain ⟨hbest, hreport, hadds⟩ := nothing_best_iff
  have hnone : Engine.overloads.ConsultsNone 0 := nofun
  obtain ⟨r₀, hr₀, -⟩ := exists_ok_of_any (P := fun _ => true)
    (show (Engine.overloads.rankSite Engine.overloaded {}).1.toOption.any _ = true by
      decide +kernel)
  obtain ⟨reports, hreports, hlight⟩ := exists_ok_of_any
    (P := fun reports => reports.any fun r => r.resolution.applicable.any Candidate.accessible)
    (show (overloadedScenario.reportCalls {} []).toOption.any _ = true by decide +kernel)
  obtain ⟨r, hr, hopen⟩ := exists_ok_of_any (P := fun r => r.candidates.any Candidate.accessible)
    (show (Engine.overloads.rankSite { Engine.overloaded with candidates := [14] }
      {}).1.toOption.any _ = true by decide +kernel)
  obtain ⟨r', hr', -⟩ := exists_ok_of_any (P := fun _ => true)
    (show (Engine.overloads.rankSite { Engine.overloaded with candidates := [13, 14] }
      {}).1.toOption.any _ = true by decide +kernel)
  obtain ⟨hkeeps, hranked⟩ := hadds _ Engine.overloaded {} [] [14] 13 r r' hr hr'
  obtain ⟨c, ⟨-, hc⟩, hinserted⟩ := hranked hnone
  have happlies : c.phase.isApplicable = false := by
    cases hc
    rfl
  have hopen : ∃ d ∈ r.candidates, d.accessible = true := List.any_eq_true.1 hopen
  obtain ⟨report, hmem, hany⟩ := List.any_eq_true.1 hlight
  obtain ⟨d, hd, hdopen⟩ := List.any_eq_true.1 hany
  have hshadowed : ¬report.resolution.Shadowed := fun h =>
    Bool.false_ne_true ((h.hidden d hd).symm.trans hdopen)
  exact ⟨⟨r₀, hr₀, hbest _ _ _ r₀ hr₀⟩,
    ⟨reports, hreports, report, hmem, hshadowed,
      (hreport _ _ _ reports hreports report hmem hshadowed).1⟩,
    r, r', c, hr, hr', hnone, hinserted, happlies, hopen,
    hkeeps c hinserted happlies fun _ => hopen⟩

/-! ### Shadows -/

/-- The built-in classes with classes `Owner` and `Caller`, and two methods of `Owner`: one that is
hidden in it and takes a primitive number, and one that takes a string. -/
def hiddenMethods : Store :=
  let (s, owner) := Store.standard.declareClass "Owner" .concrete
  let (s, _) := s.declareClass "Caller" .concrete
  let (s, hidden) := s.declareMethod "hidden" .method (some owner)
  let s := s.setSignature hidden [⟨"number", .prim .int⟩] .null false
  let s := s.setVisibility hidden .inClass
  let (s, shown) := s.declareMethod "shown" .method (some owner)
  s.setSignature shown [⟨"text", .raw 4⟩] .null false

def fromOutside : CallSite :=
  { id := 0, candidates := [15, 16], args := [.known (some (.prim .int))], caller := some 14 }

def shadowedScenario : Scenario where
  store := hiddenMethods
  calls := CallGraph.empty.insert fromOutside
  options := {}
  callNames := ["c"]

/-- An engine with interfaces `List<E>` and `Sink<S>`, and a call of a method that takes two
arguments of a type `U`: a `List<?>`, and a call with the given candidates and a sink of lists of
the first captured wildcard. Methods `<V> V other(int)` and `<T> T inner(Sink<? super T>)` are
there to be candidates. -/
def sinks (candidates : List MethodId) : Engine :=
  let (s, list) := Store.standard.declareClass "List" .interface
  let (s, _) := s.declareParam "E" (.cls list)
  let (s, sink) := s.declareClass "Sink" .interface
  let (s, _) := s.declareParam "S" (.cls sink)
  let (s, outer) := s.declareMethod "outer" .method none
  let (s, u) := s.declareParam "U" (.method outer)
  let s := s.setSignature outer [⟨"x", .param u⟩, ⟨"y", .param u⟩] .null false
  let (s, other) := s.declareMethod "other" .method none
  let (s, v) := s.declareParam "V" (.method other)
  let s := s.setSignature other [⟨"number", .prim .int⟩] (.param v) false
  let (s, inner) := s.declareMethod "inner" .method none
  let (s, t) := s.declareParam "T" (.method inner)
  let s := s.setSignature inner [⟨"sink", .cls sink [.above (.param t)]⟩] (.param t) false
  let around : CallSite :=
    { id := 0, candidates := [outer], args := [.known (some (.cls list [.anything])), .call 1] }
  let arg : Ty := .cls sink [.cls list [.captured 1 .upper none]]
  let inside : CallSite :=
    { id := 1, candidates, args := [.known (some arg)], context := .argument 0 1 }
  { store := s, calls := (CallGraph.empty.insert around).insert inside }

/-- A candidate that applies may be shadowed by one that does not. With `shown` as second candidate,
`hidden` is not best any more, and the report says that no candidate applies. Where an enclosing
call is consulted, a candidate that does not apply may take others from the best ones too: `inner`
applies alone, and no longer once the context was consulted, with captures, for `other`. -/
theorem best_lost_to_inapplicable :
    (∃ r, ((shadowedScenario.engine {}).rankSite fromOutside {}).1 = .ok r ∧ r.best = [] ∧
      r.applicable ≠ []) ∧
    (∃ r, ((shadowedScenario.engine {}).rankSite { fromOutside with candidates := [15] } {}).1 =
      .ok r ∧ r.best ≠ []) ∧
    (∃ reports, shadowedScenario.reportCalls {} [] = .ok reports ∧ ∃ r ∈ reports,
      r.resolution.applicable ≠ [] ∧ r.hasApplicable = false ∧
      resultLine hiddenMethods false r = "  no applicable candidate") ∧
    (∃ r, ((sinks [21]).rankCall 1 {}).1 = .ok r ∧ r.best ≠ []) ∧
    ∃ r, ((sinks [19, 21]).rankCall 1 {}).1 = .ok r ∧ r.best = [] := by
  obtain ⟨r, hr, hbest⟩ := exists_ok_of_any
    (P := fun r => r.best.isEmpty && !r.applicable.isEmpty)
    (show ((shadowedScenario.engine {}).rankSite fromOutside {}).1.toOption.any _ = true by
      decide +kernel)
  obtain ⟨r₁, hr₁, hbest₁⟩ := exists_ok_of_any (P := fun r => !r.best.isEmpty)
    (show ((shadowedScenario.engine {}).rankSite { fromOutside with candidates := [15] }
      {}).1.toOption.any _ = true by decide +kernel)
  obtain ⟨reports, hreports, hreport⟩ := exists_ok_of_any
    (P := fun reports => reports.any fun r =>
      !r.resolution.applicable.isEmpty && r.resolution.best.isEmpty)
    (show (shadowedScenario.reportCalls {} []).toOption.any _ = true by decide +kernel)
  obtain ⟨r₂, hr₂, hbest₂⟩ := exists_ok_of_any (P := fun r => !r.best.isEmpty)
    (show ((sinks [21]).rankCall 1 {}).1.toOption.any _ = true by decide +kernel)
  obtain ⟨r₃, hr₃, hbest₃⟩ := exists_ok_of_any (P := fun r => r.best.isEmpty)
    (show ((sinks [19, 21]).rankCall 1 {}).1.toOption.any _ = true by decide +kernel)
  obtain ⟨report, hmem, hshown⟩ := List.any_eq_true.1 hreport
  simp only [Bool.and_eq_true, Bool.not_eq_true', List.isEmpty_iff, List.isEmpty_eq_false_iff]
    at hbest hbest₁ hshown hbest₂ hbest₃
  have hline : resultLine hiddenMethods false report = "  no applicable candidate" :=
    (resultLine_eq_nothingLine_iff false).2 hshown.2
  have hnone : report.hasApplicable = false := by
    rw [CallReport.hasApplicable, hshown.2]
    rfl
  exact ⟨⟨r, hr, hbest⟩, ⟨r₁, hr₁, hbest₁⟩,
    ⟨reports, hreports, report, hmem, hshown.1, hnone, hline⟩, ⟨r₂, hr₂, hbest₂⟩, r₃, hr₃, hbest₃⟩

end GenericCalls.Report
