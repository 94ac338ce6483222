import GenericCalls.Call.Site
import GenericCalls.Scenario.Error
import GenericCalls.Scenario.Reader

/-! # Loading scenarios

Turns a document into declarations and calls. All classes are declared before any type expression is
read, so that bounds and supertypes may refer to classes further down; methods follow, then calls.
The first error in this order ends the loading. -/

namespace GenericCalls.Scenario

open TypeExpr (Scope)

abbrev Loading := Except LoadError

def readType (s : Store) (scope : Scope) (input : String) : Loading Ty :=
  match TypeExpr.read s scope input with
  | .ok t => .ok t
  | .error e => .error (.type input e)

def readTypes (s : Store) (scope : Scope) (inputs : List String) : Loading (List Ty) :=
  inputs.mapM (readType s scope)

def classOf (s : Store) (name : String) : Loading ClassId :=
  match s.classNamed? name with
  | some c => .ok c
  | none => .error (.unknownClass name)

/-! ### Type parameters -/

def declareParams (owner : ParamOwner) : List ParamEntry → Store → Store × List ParamId
  | [], s => (s, [])
  | e :: es, s =>
    let (s, p) := s.declareParam e.name owner
    let (s, ps) := declareParams owner es s
    (s, p :: ps)

def loadBounds (scope : Scope) : List (ParamId × ParamEntry) → Store → Loading Store
  | [], s => .ok s
  | (p, e) :: rest, s =>
    if e.bounds.isEmpty then loadBounds scope rest s
    else do
      let bounds ← readTypes s scope e.bounds
      loadBounds scope rest (s.setBounds p bounds)

/-! ### Classes -/

/-- Declares classes and their type parameters. A name may be declared once, and not at all if it is
built in. -/
def declareClasses : List ClassEntry → Store → Loading (Store × List ClassId)
  | [], s => .ok (s, [])
  | e :: es, s =>
    if (s.classNamed? e.name).isSome then .error (.duplicateClass e.name)
    else do
      let (s, c) := s.declareClass e.name e.kind
      let (s, _) := declareParams (.cls c) e.typeParams s
      let (s, cs) ← declareClasses es s
      return (s, c :: cs)

def loadSupertypes (scope : Scope) (c : ClassId) : List String → Store → Loading Store
  | [], s => .ok s
  | input :: rest, s => do
    match ← readType s scope input with
    | .cls d args => loadSupertypes scope c rest (s.addSupertype c ⟨d, args⟩)
    | _ => .error (.unknownClass input)

def completeClasses : List (ClassId × ClassEntry) → Store → Loading Store
  | [], s => .ok s
  | (c, e) :: rest, s => do
    let scope := Scope.withClass .empty s c
    let s ← loadBounds scope ((s.classParams c).zip e.typeParams) s
    let s ← loadSupertypes scope c e.supertypes s
    completeClasses rest s

def loadClasses (es : List ClassEntry) (s : Store) : Loading Store := do
  let (s, cs) ← declareClasses es s
  completeClasses (cs.zip es) s

/-! ### Methods -/

/-- The methods that names stand for, in order of declaration: a method stands under its own name,
and under that of its owner and its own. -/
abbrev MethodNames := List (String × MethodId)

def namesOf (e : MethodEntry) : List String :=
  e.name :: (e.owner.map fun owner => s!"{owner}.{e.name}").toList

/-- The formals of a method; the one at place `i` is named `p` and `i`. -/
def formalsOf (types : List Ty) : List Formal :=
  types.mapIdx fun i t => ⟨s!"p{i}", t⟩

/-- Loads a method. The type parameters of its owner are in scope, and its own hide them. -/
def loadMethod (e : MethodEntry) (s : Store) : Loading (Store × MethodId) := do
  let owner ← e.owner.mapM (classOf s)
  let (s, m) := s.declareMethod e.name e.kind owner
  let (s, ps) := declareParams (.method m) e.typeParams s
  let outer : Scope := match owner with
    | some c => Scope.withClass .empty s c
    | none => .empty
  let scope := outer.withParams ((e.typeParams.map ParamEntry.name).zip ps)
  let s ← loadBounds scope (ps.zip e.typeParams) s
  let formals := formalsOf (← readTypes s scope e.params)
  let returns ← (e.returns.mapM (readType s scope) : Loading (Option Ty))
  let s := s.setSignature m formals (returns.getD (.prim .void)) e.variadic
  return (s.setVisibility m e.visibility, m)

def loadMethods : List MethodEntry → Store → Loading (Store × MethodNames)
  | [], s => .ok (s, [])
  | e :: es, s => do
    let (s, m) ← loadMethod e s
    let (s, names) ← loadMethods es s
    return (s, (namesOf e).map (·, m) ++ names)

/-! ### Calls -/

/-- The call of a name: calls are numbered in order. -/
def callOf (names : List String) (name : String) : Loading CallId :=
  match names.idxOf? name with
  | some i => .ok i
  | none => .error (.unknownCall name)

/-- The first name that stands in a list again after it has stood there before. -/
def firstRepeated? : List String → List String → Option String
  | _, [] => none
  | seen, name :: rest =>
    if seen.contains name then some name else firstRepeated? (name :: seen) rest

/-- The places in which calls are arguments, from first to last: the call, its name, the enclosing
call and the place among the arguments of that. -/
def slotsOf (outer : CallId) (args : List ArgEntry) : List (String × CallContext) :=
  (args.zipIdx).filterMap fun (a, i) =>
    match a with
    | .call name => some (name, .argument outer i)
    | _ => none

/-- The context of each call that is an argument. A call may be an argument once. -/
def loadSlots (names : List String) :
    List (String × CallContext) → List (CallId × CallContext) →
      Loading (List (CallId × CallContext))
  | [], found => .ok found
  | (name, context) :: rest, found => do
    let inner ← callOf names name
    if (found.lookup inner).isSome then .error (.sharedCall name)
    else loadSlots names rest ((inner, context) :: found)

def methodsOf (methods : MethodNames) (name : String) : Loading (List MethodId) :=
  match methods.filterMap fun e => if e.1 = name then some e.2 else none with
  | [] => .error (.unknownMethod name)
  | ms => .ok ms

def loadArg (s : Store) (scope : Scope) (names : List String) : ArgEntry → Loading Argument
  | .untyped => .ok (.known none)
  | .typed input => return .known (some (← readType s scope input))
  | .call name => return .call (← callOf names name)

def loadContext (s : Store) (scope : Scope) : ContextEntry → Loading CallContext
  | .standalone => .ok .standalone
  | .initial input => return .initial (← readType s scope input)
  | .assignment input => return .assignment (← readType s scope input)
  | .returned none => .ok (.returned none)
  | .returned (some input) => return .returned (some (← readType s scope input))

/-- The bindings that a receiver gives: its type arguments for the parameters of its class. A raw
receiver erases them. -/
def receiverBindings (s : Store) : Ty → Substitution
  | .cls c [] => .raw (s.classParams c)
  | .cls c args => .ofArgs (s.classParams c) args
  | _ => .empty

/-- Loads a call. Its context is the declared one, or else the place where it is an argument. -/
def loadCall (s : Store) (methods : MethodNames) (names : List String)
    (slots : List (CallId × CallContext)) (id : CallId) (e : CallEntry) : Loading CallSite := do
  let caller ← e.caller.mapM (classOf s)
  let scope : Scope := match caller with
    | some c => Scope.withClass .empty s c
    | none => .empty
  let candidates ← e.candidates.mapM (methodsOf methods)
  let args ← e.args.mapM (loadArg s scope names)
  let context ← match e.context with
    | some context => loadContext s scope context
    | none => pure ((slots.lookup id).getD .standalone)
  let typeArgs ← readTypes s scope e.typeArgs
  let given ← match e.receiver with
    | some input => do pure (receiverBindings s (← readType s scope input))
    | none => pure .empty
  return {
    id, kind := e.kind, candidates := candidates.flatten, args, context, typeArgs, given, caller }

def loadCallsFrom (s : Store) (methods : MethodNames) (names : List String)
    (slots : List (CallId × CallContext)) :
    CallId → List CallEntry → CallGraph → Loading CallGraph
  | _, [], g => .ok g
  | id, e :: es, g => do
    let site ← loadCall s methods names slots id e
    loadCallsFrom s methods names slots (id + 1) es (g.insert site)

def loadCalls (s : Store) (methods : MethodNames) (es : List CallEntry) : Loading CallGraph := do
  let names := es.map CallEntry.id
  if let some name := firstRepeated? [] names then
    throw (.duplicateCall name)
  let slots ← loadSlots names (es.zipIdx.flatMap fun (e, i) => slotsOf i e.args) []
  loadCallsFrom s methods names slots 0 es .empty

end GenericCalls.Scenario

/-! ### Scenarios -/

namespace GenericCalls

/-- A loaded scenario: declarations, calls with their names in order, and options. -/
structure Scenario where
  store : Store
  calls : CallGraph
  options : Options
  callNames : List String
deriving Inhabited

namespace Scenario

def ofDocument (d : Document) : Loading Scenario := do
  let s ← loadClasses d.classes .standard
  let (s, methods) ← loadMethods d.methods s
  let calls ← loadCalls s methods d.calls
  return ⟨s, calls, d.options, d.calls.map CallEntry.id⟩

def ofText (text : String) : Loading Scenario :=
  match Document.ofText? text with
  | some d => ofDocument d
  | none => .error .noDocument

def callName? (s : Scenario) (call : CallId) : Option String := s.callNames[call]?

def callNamed? (s : Scenario) (name : String) : Option CallId := s.callNames.idxOf? name

end Scenario

end GenericCalls
