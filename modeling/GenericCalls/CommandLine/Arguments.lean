/-! # Command line arguments

The arguments are the path of a scenario and options, in any order. An option takes its value from
the same argument, after `=`, or from the next one. A value is not looked at when it is given, but
when the next option or the next path is accepted, or at the end; what is wrong with an argument by
itself is found at once. After the argument `--` everything is a path. -/

namespace GenericCalls.CommandLine

inductive Format where
  | text | json
deriving DecidableEq, Repr, Inhabited

inductive ArgError where
  | invalidValue
  | unknownArgument
  | conflict
  | missingPath
  | unneededValue
  | help
  | version
deriving DecidableEq, Repr, Inhabited

inductive ValueOption where
  | format | call | pretty
deriving DecidableEq, Repr, Inhabited

inductive Flag where
  | bestEffort | noOuterContext | help | version
deriving DecidableEq, Repr, Inhabited

structure Arguments where
  path : String
  format : Format := .text
  calls : List String := []
  bestEffort : Bool := false
  noOuterContext : Bool := false
  pretty : Option Bool := none
deriving DecidableEq, Repr, Inhabited

inductive Slot where
  | path
  | option (o : ValueOption)
deriving DecidableEq, Repr, Inhabited

/-- The arguments accepted so far. A value that has not been looked at yet is pending; an option
whose value has not come yet is pending without one. -/
structure State where
  path : Option String := none
  format : Option Format := none
  calls : List String := []
  bestEffort : Bool := false
  noOuterContext : Bool := false
  pretty : Option Bool := none
  pathGiven : Bool := false
  pending : Option (Slot × Option String) := none
  onlyPaths : Bool := false
deriving DecidableEq, Repr, Inhabited

/-! ### Values -/

def lower (s : String) : String := String.ofList (s.toList.map Char.toLower)

def formatOf? (value : String) : Option Format :=
  if lower value = "text" then some .text
  else if lower value = "json" then some .json
  else none

def boolOf? : String → Option Bool
  | "true" => some true
  | "false" => some false
  | _ => none

/-- Accepts the value of an option. All options but the calls may be given once. -/
def acceptOption (s : State) (value : String) : ValueOption → Except ArgError State
  | .format =>
    if s.format.isSome then .error .conflict
    else
      match formatOf? value with
      | some f => .ok { s with format := some f }
      | none => .error .invalidValue
  | .call => .ok { s with calls := s.calls ++ [value] }
  | .pretty =>
    if s.pretty.isSome then .error .conflict
    else
      match boolOf? value with
      | some b => .ok { s with pretty := some b }
      | none => .error .invalidValue

def settle (s : State) : Except ArgError State :=
  let done := { s with pending := none }
  match s.pending with
  | none => .ok done
  | some (_, none) => .error .invalidValue
  | some (.path, some value) =>
    if value.isEmpty then .error .invalidValue else .ok { done with path := some value }
  | some (.option o, some value) => acceptOption done value o

def acceptFlag (s : State) : Flag → Except ArgError State
  | .bestEffort =>
    if s.bestEffort then .error .conflict else .ok { s with bestEffort := true }
  | .noOuterContext =>
    if s.noOuterContext then .error .conflict else .ok { s with noOuterContext := true }
  | .help => .error .help
  | .version => .error .version

/-! ### Arguments -/

def named? : String → Option (ValueOption ⊕ Flag)
  | "format" => some (.inl .format)
  | "call" => some (.inl .call)
  | "pretty" => some (.inl .pretty)
  | "bestEffort" => some (.inr .bestEffort)
  | "best-effort" => some (.inr .bestEffort)
  | "noOuterContext" => some (.inr .noOuterContext)
  | "no-outer-context" => some (.inr .noOuterContext)
  | "help" => some (.inr .help)
  | "version" => some (.inr .version)
  | _ => none

def splitValue (cs : List Char) : String × Option String :=
  match cs.dropWhile (· != '=') with
  | [] => (String.ofList cs, none)
  | _ :: value => (String.ofList (cs.takeWhile (· != '=')), some (String.ofList value))

def readLong (s : State) (cs : List Char) : Except ArgError State :=
  let (name, value) := splitValue cs
  match named? name, value with
  | none, _ => .error .unknownArgument
  | some (.inl o), some value => do acceptOption (← settle s) value o
  | some (.inl o), none => do
    let s ← settle s
    return { s with pending := some (.option o, none) }
  | some (.inr _), some _ => .error .unneededValue
  | some (.inr flag), none => do acceptFlag (← settle s) flag

/-- Reads an argument that starts with one dash, from what follows it: the first letter decides. -/
def readShort (s : State) (c : Char) : Except ArgError State :=
  if c = 'h' then do acceptFlag (← settle s) .help
  else if c = 'V' then do acceptFlag (← settle s) .version
  else .error .unknownArgument

def readPath (s : State) (arg : String) : Except ArgError State :=
  if s.pathGiven then .error .unknownArgument
  else do
    let s ← settle s
    return { s with pathGiven := true, pending := some (.path, some arg) }

/-- Reads an argument that is no option: the value of a pending option, or the path. -/
def readValue (s : State) (arg : String) : Except ArgError State :=
  match s.pending with
  | some (.option o, none) => .ok { s with pending := some (.option o, some arg) }
  | _ => readPath s arg

def readArgument (s : State) (arg : String) : Except ArgError State :=
  if s.onlyPaths then readPath s arg
  else
    match arg.toList with
    | ['-', '-'] => .ok { s with onlyPaths := true }
    | '-' :: '-' :: cs => readLong s cs
    | '-' :: c :: _ => readShort s c
    | _ => readValue s arg

def Arguments.ofList (args : List String) : Except ArgError Arguments := do
  let s ← settle (← args.foldlM readArgument {})
  match s.path with
  | some path =>
    return { s with path, format := s.format.getD .text }
  | none => .error .missingPath

end GenericCalls.CommandLine
