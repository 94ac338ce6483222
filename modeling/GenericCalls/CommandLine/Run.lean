import GenericCalls.CommandLine.Arguments
import GenericCalls.Report.Json
import GenericCalls.Report.Text

/-! # Running a request

From accepted arguments and the content of the scenario file to the report. -/

namespace GenericCalls.CommandLine

inductive RunError where
  /-- The file cannot be read, for a reason given by the system. -/
  | unreadable (path reason : String)
  | unloadable (path : String) (error : Scenario.LoadError)
  | report (error : Scenario.ReportError)
deriving DecidableEq, Repr, Inhabited

def RunError.chain : RunError → List String
  | unreadable path reason => [s!"failed to read scenario: {path}", reason]
  | unloadable path error => [s!"failed to load scenario: {path}", error.message]
  | report error => error.chain

def Arguments.options (a : Arguments) (o : Options) : Options where
  mode := if a.bestEffort then .bestEffort else o.mode
  outerContext := if a.noOuterContext then false else o.outerContext

def render (s : Store) (format : Format) (color : Bool) (rs : List Scenario.CallReport) : String :=
  match format with
  | .text => Report.text s color rs
  | .json => Report.json s rs

/-- The report that arguments ask for, from the content of the file or the reason why it cannot be
read. -/
def run (a : Arguments) (content : Except String String) (color : Bool) :
    Except RunError String :=
  match content with
  | .error reason => .error (.unreadable a.path reason)
  | .ok text =>
    match Scenario.ofText text with
    | .error e => .error (.unloadable a.path e)
    | .ok scenario =>
      match scenario.reportCalls (a.options scenario.options) a.calls with
      | .error e => .error (.report e)
      | .ok rs => .ok (render scenario.store a.format color rs)

end GenericCalls.CommandLine
