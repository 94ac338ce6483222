import GenericCalls.Ranking.Basic
import GenericCalls.Scenario.Load

/-! # Ranking the calls of a scenario

Each call is ranked, and its type computed, in a session of its own, under declared visibility. -/

namespace GenericCalls

namespace Scenario

def engine (s : Scenario) (options : Options) : Engine :=
  { store := s.store, calls := s.calls, access := .declared s.store, options }

def rank (s : Scenario) (options : Options) (call : CallId) : Ranked :=
  ((s.engine options).rankCall call {}).1

/-- The type of a call; none unless exactly one of its candidates is best. -/
def callType (s : Scenario) (options : Options) (call : CallId) : Option Ty :=
  ((s.engine options).callType call {}).1

structure CallReport where
  name : String
  resolution : Resolution
  result : Option Ty
deriving Inhabited

def CallReport.hasApplicable (r : CallReport) : Bool := !r.resolution.best.isEmpty

inductive ReportError where
  | unknownCall (name : String)
  | rank (name : String) (error : RankError)
deriving DecidableEq, Repr, Inhabited

def ReportError.chain : ReportError → List String
  | unknownCall name => [s!"unknown call `{name}`"]
  | rank name error => [s!"failed to rank call `{name}`", error.message]

def selectCalls (s : Scenario) (filter : List String) : Except ReportError (List CallId) :=
  if filter.isEmpty then .ok s.calls.ids
  else filter.mapM fun name =>
    match s.callNamed? name with
    | some call => .ok call
    | none => .error (.unknownCall name)

def reportCall (s : Scenario) (options : Options) (call : CallId) :
    Except ReportError CallReport :=
  let name := (s.callName? call).getD ""
  match s.rank options call with
  | .ok resolution => .ok ⟨name, resolution, s.callType options call⟩
  | .error e => .error (.rank name e)

/-- The reports on the calls of the names in a filter, or on all calls if it is empty. -/
def reportCalls (s : Scenario) (options : Options) (filter : List String) :
    Except ReportError (List CallReport) := do
  (← s.selectCalls filter).mapM (s.reportCall options)

end Scenario

end GenericCalls
