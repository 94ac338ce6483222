import GenericCalls.Json.Printer
import GenericCalls.Report.Signature
import GenericCalls.Scenario.Ranking

/-! # Reports as JSON

For each call an object with its candidates. Bindings stand under the names of their parameters; of
two parameters of one name the later binding is kept. -/

namespace GenericCalls.Report

open Json (Value)
open Scenario (CallReport)

/-- The type of a binding; `null` if it erases its parameter. -/
def bindingValue (s : Store) : Binding → Value
  | .bound t => .string (s.showTy t)
  | .erased => .null

def bindingsValue (s : Store) (σ : Substitution) : Value :=
  .object (KeyedList.ofList (σ.toList.map fun (p, b) => (s.paramName p, bindingValue s b))).entries

def candidateValue (s : Store) (best : Bool) (c : Candidate) : Value :=
  .object [
    ("signature", .string (s.signature c.method)),
    ("applicability", .string c.phase.label),
    ("accessible", .bool c.accessible),
    ("best", .bool best),
    ("substitution", bindingsValue s c.substitution)]

def callValue (s : Store) (r : CallReport) : Value :=
  let best := r.resolution.best.length
  .object [
    ("id", .string r.name),
    ("ambiguous", .bool r.resolution.isAmbiguous),
    ("result", ((r.result.map fun t => .string (s.showTy t)).getD .null)),
    ("candidates", .array (r.resolution.candidates.mapIdx fun i c =>
      candidateValue s (decide (i < best)) c))]

def json (s : Store) (rs : List CallReport) : String :=
  Json.print (.array (rs.map (callValue s))) ++ "\n"

end GenericCalls.Report
