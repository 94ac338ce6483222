import GenericCalls.Json.Reader
import GenericCalls.Scenario.Document

/-! # Reading scenario documents

The shape of a scenario document in JSON. A record is an object, or an array of its fields in order
of which the last ones may be left out; fields with other names are ignored, and a field may not be
given twice. Only few fields may be `null`. -/

namespace GenericCalls.Scenario

open Json (Parsed)

/-! ### Values -/

def text? : Parsed → Option String
  | .string s => s
  | _ => none

def bool? : Parsed → Option Bool
  | .bool b => some b
  | _ => none

def list? {α : Type} (item : Parsed → Option α) : Parsed → Option (List α)
  | .array vs => vs.mapM item
  | _ => none

/-- A value that may be `null`, where `item` reads any other. -/
def nullable? {α : Type} (item : Parsed → Option α) : Parsed → Option (Option α)
  | .null => some none
  | v => (item v).map some

/-- The word of a list that a value is, with its meaning: the word itself, or an object in which it
stands for nothing. -/
def word? {α : Type} (words : List (String × α)) : Parsed → Option α
  | .string (some s) => words.lookup s
  | .object [(some s, .null)] => words.lookup s
  | _ => none

def optional {α : Type} (default : α) (item : Parsed → Option α) : Option Parsed → Option α
  | none => some default
  | some v => item v

/-! ### Records -/

/-- The value of a field that may be given once. -/
def single? (entries : List (Option String × Parsed)) (name : String) :
    Option (Option Parsed) :=
  match entries.filter fun e => e.1 == some name with
  | [] => some none
  | [e] => some (some e.2)
  | _ => none

/-- The values of the named fields of an object; the keys of all fields have to be proper. -/
def objectFields? (names : List String) (entries : List (Option String × Parsed)) :
    Option (List (Option Parsed)) :=
  if entries.all fun e => e.1.isSome then names.mapM (single? entries) else none

/-- The values of the named fields of a record, in the order of the names. -/
def fields? (names : List String) : Parsed → Option (List (Option Parsed))
  | .object entries => objectFields? names entries
  | .array vs =>
    if vs.length ≤ names.length then
      some (vs.map some ++ List.replicate (names.length - vs.length) none)
    else none
  | _ => none

/-! ### Words -/

def modes : List (String × Mode) := [("strict", .strict), ("bestEffort", .bestEffort)]

def classKinds : List (String × ClassKind) := [("class", .concrete), ("interface", .interface)]

def callableKinds : List (String × CallableKind) :=
  [("method", .method), ("constructor", .constructor)]

def visibilities : List (String × Visibility) :=
  [("public", .everywhere), ("protected", .inSubclasses), ("package", .inPackage),
    ("private", .inClass)]

/-! ### Entries -/

/-- How many arrays and objects may be nested in a value that stands in so many of them and is taken
as a whole. -/
def nestingLeft (depth : Nat) : Nat := Parsed.maxNesting - depth

def readParam (v : Parsed) : Option ParamEntry :=
  if v.isProper (nestingLeft 4) then
    match v with
    | .string (some name) => some { name }
    | .object entries =>
      match objectFields? ["name", "bounds"] entries with
      | some [some name, bounds] => do
        return { name := ← text? name, bounds := ← optional [] (list? text?) bounds }
      | _ => none
    | _ => none
  else none

def readClass (v : Parsed) : Option ClassEntry :=
  match fields? ["name", "kind", "typeParams", "supertypes"] v with
  | some [some name, kind, typeParams, supertypes] => do
    return {
      name := ← text? name
      kind := (← optional none (nullable? (word? classKinds)) kind).getD .concrete
      typeParams := ← optional [] (list? readParam) typeParams
      supertypes := ← optional [] (list? text?) supertypes }
  | _ => none

def readMethod (v : Parsed) : Option MethodEntry :=
  match fields?
      ["name", "owner", "kind", "visibility", "typeParams", "params", "varargs", "returns"] v with
  | some [some name, owner, kind, visibility, typeParams, params, variadic, returns] => do
    return {
      name := ← text? name
      owner := ← optional none (nullable? text?) owner
      kind := ← optional .method (word? callableKinds) kind
      visibility := ← optional .everywhere (word? visibilities) visibility
      typeParams := ← optional [] (list? readParam) typeParams
      params := ← optional [] (list? text?) params
      variadic := ← optional false bool? variadic
      returns := ← optional none (nullable? text?) returns }
  | _ => none

/-- Reads an argument: `null`, a type expression, or an object that names a call. -/
def readArg (v : Parsed) : Option ArgEntry :=
  if v.isProper (nestingLeft 4) then
    match v with
    | .null => some .untyped
    | .string (some s) => some (.typed s)
    | .object entries =>
      match objectFields? ["call"] entries with
      | some [some call] => (text? call).map .call
      | _ => none
    | _ => none
  else none

/-- Reads the field of a context of a kind: a context without a fitting field has none. -/
def contextOf? (kind : String) (field : Option Parsed) : Option ContextEntry :=
  match kind, field with
  | "none", _ => some .standalone
  | "variable", some v => (text? v).map .initial
  | "assignment", some v => (text? v).map .assignment
  | "return", field => (optional none (nullable? text?) field).map .returned
  | _, _ => none

def contextField : String → String
  | "variable" => "type"
  | "assignment" => "target"
  | _ => "returns"

/-- Reads a context: an object with a kind, or an array of a kind and what belongs to it. -/
def readContext (v : Parsed) : Option ContextEntry :=
  if v.isProper (nestingLeft 3) then
    match v with
    | .object entries => do
      match ← single? entries "kind" with
      | some kind =>
        let kind ← text? kind
        if kind = "none" then
          return .standalone
        else
          contextOf? kind (← single? entries (contextField kind))
      | none => none
    | .array [kind] => do contextOf? (← text? kind) none
    | .array [kind, field] => do
      let kind ← text? kind
      if kind = "none" then none else contextOf? kind (some field)
    | _ => none
  else none

def readCall (v : Parsed) : Option CallEntry :=
  match fields?
      ["id", "kind", "candidates", "args", "context", "typeArgs", "receiver", "caller"] v with
  | some [some id, kind, some candidates, args, context, typeArgs, receiver, caller] => do
    return {
      id := ← text? id
      kind := ← optional .method (word? callableKinds) kind
      candidates := ← list? text? candidates
      args := ← optional [] (list? readArg) args
      context := ← optional none (nullable? readContext) context
      typeArgs := ← optional [] (list? text?) typeArgs
      receiver := ← optional none (nullable? text?) receiver
      caller := ← optional none (nullable? text?) caller }
  | _ => none

def readOptions (v : Parsed) : Option Options :=
  match fields? ["mode", "outerCallContext"] v with
  | some [mode, outerContext] => do
    return {
      mode := ← optional .strict (word? modes) mode
      outerContext := ← optional true bool? outerContext }
  | _ => none

def readDocument (v : Parsed) : Option Document :=
  match fields? ["options", "classes", "methods", "calls"] v with
  | some [options, classes, methods, calls] => do
    return {
      options := ← optional {} readOptions options
      classes := ← optional [] (list? readClass) classes
      methods := ← optional [] (list? readMethod) methods
      calls := ← optional [] (list? readCall) calls }
  | _ => none

/-- The document that a JSON text is; none if it is no JSON text, or not of that shape. -/
def Document.ofText? (text : String) : Option Document := (Json.read? text).bind readDocument

end GenericCalls.Scenario
