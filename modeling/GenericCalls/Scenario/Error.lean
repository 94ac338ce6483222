import GenericCalls.TypeExpr.Reader

/-! # Errors of scenarios

Why a scenario cannot be loaded. -/

namespace GenericCalls.Scenario

inductive LoadError where
  /-- The text is no scenario document. -/
  | noDocument
  /-- A type expression has no type. -/
  | type (input : String) (error : TypeExpr.ReadError)
  | unknownClass (name : String)
  | unknownMethod (name : String)
  | unknownCall (name : String)
  | duplicateClass (name : String)
  | duplicateCall (name : String)
  /-- A call is an argument in more than one place. -/
  | sharedCall (name : String)
deriving DecidableEq, Repr, Inhabited

def typeMessage (input : String) : TypeExpr.ReadError → String
  | .form fault offset => s!"{fault.message} at offset {offset} in type `{input}`"
  | .unknownName name => s!"cannot resolve `{name}` in type `{input}`"
  | .arity name expected actual => s!"class {name} takes {expected} type argument(s), got {actual}"

def LoadError.message : LoadError → String
  | noDocument => "<json>"
  | type input error => typeMessage input error
  | unknownClass name => s!"unknown class `{name}`"
  | unknownMethod name => s!"unknown method `{name}`"
  | unknownCall name => s!"unknown call `{name}`"
  | duplicateClass name => s!"class `{name}` is declared twice"
  | duplicateCall name => s!"call `{name}` is declared twice"
  | sharedCall name => s!"call `{name}` is an argument of more than one call"

end GenericCalls.Scenario
