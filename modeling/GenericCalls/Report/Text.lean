import GenericCalls.Report.Paint
import GenericCalls.Report.Signature
import GenericCalls.Scenario.Ranking

/-! # Reports as text

For each call a heading, a line for each candidate, and the result: the type of the call, or why it
has none. -/

namespace GenericCalls.Report

open Scenario (CallReport)

def phaseStyle : Phase → Style
  | .exact => .exact
  | .boxing => .boxing
  | .variadic => .variadic
  | .inapplicable => .inapplicable

def candidateLine (s : Store) (color best : Bool) (c : Candidate) : String :=
  let marker := if best then paint color .marker "*" else " "
  let phase := paint color (phaseStyle c.phase) (padRight 9 c.phase.label)
  let bindings := if c.substitution.isEmpty then ""
    else "  " ++ s.showSubstitution c.substitution
  let access := if c.accessible then "" else " " ++ paint color .warning "(inaccessible)"
  "  " ++ marker ++ " " ++ phase ++ " " ++ s.signature c.method ++ bindings ++ access ++ "\n"

def heading (r : CallReport) : String :=
  let n := r.resolution.candidates.length
  s!"call {r.name}: {n} candidate" ++ if n = 1 then "" else "s"

def resultLine (s : Store) (color : Bool) (r : CallReport) : String :=
  let best := r.resolution.best.length
  if best = 0 then "  " ++ paint color .failure "no applicable candidate"
  else if r.resolution.isAmbiguous then
    "  " ++ paint color .ambiguity s!"ambiguous: {best} candidates share the best rank"
  else "  result: " ++ paint color .result ((r.result.map s.showTy).getD "<unknown>")

def callText (s : Store) (color : Bool) (r : CallReport) : String :=
  let best := r.resolution.best.length
  let lines := r.resolution.candidates.mapIdx fun i c => candidateLine s color (decide (i < best)) c
  paint color .heading (heading r) ++ "\n" ++ String.join lines ++ resultLine s color r ++ "\n"

def text (s : Store) (color : Bool) (rs : List CallReport) : String :=
  "\n".intercalate (rs.map (callText s color))

end GenericCalls.Report
