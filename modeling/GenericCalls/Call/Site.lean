import GenericCalls.Store.Basic
import GenericCalls.Substitution

/-! # Call sites

What is known of a call from the program text around it: its candidate methods, its arguments, the
construct it stands in, and the class it is written in. The calls of a program form a graph, since a
call may be an argument of another call. -/

namespace GenericCalls

inductive CallContext where
  /-- No construct that expects a type. -/
  | standalone
  /-- The initial value of a variable that is declared with a type. -/
  | initial (declared : Ty)
  /-- The value assigned to something of a type. -/
  | assignment (target : Ty)
  /-- The value returned from a method; its return type may be unknown. -/
  | returned (expected : Option Ty)
  /-- An argument of another call. -/
  | argument (outer : CallId) (index : Nat)
deriving Repr, Inhabited

/-- An argument of a call: an expression of a type, if that is known, or another call. -/
inductive Argument where
  | known (ty : Option Ty)
  | call (id : CallId)
deriving Repr, Inhabited

/-- A call. Explicit type arguments are empty when they are to be inferred; `given` holds bindings
that are known beforehand, such as those of the receiver. -/
structure CallSite where
  id : CallId
  kind : CallableKind := .method
  candidates : List MethodId := []
  args : List Argument := []
  context : CallContext := .standalone
  typeArgs : List Ty := []
  given : Substitution := .empty
  caller : Option ClassId := none
deriving Inhabited

def Argument.call? : Argument → Option CallId
  | .call id => some id
  | .known _ => none

def CallSite.indexOf? (site : CallSite) (call : CallId) : Option Nat :=
  site.args.findIdx? fun a => a.call? == some call

/-- The calls of a program, in the order in which they were first added. -/
structure CallGraph where
  sites : KeyedList CallId CallSite
deriving Inhabited

namespace CallGraph

def empty : CallGraph := ⟨.empty⟩

def site? (g : CallGraph) (call : CallId) : Option CallSite := g.sites.get? call

/-- The graph with one more call; it replaces a call of the same id in place. -/
def insert (g : CallGraph) (site : CallSite) : CallGraph := ⟨g.sites.put site.id site⟩

def ids (g : CallGraph) : List CallId := g.sites.keys

def size (g : CallGraph) : Nat := g.sites.size

theorem site?_insert (g : CallGraph) (site : CallSite) (call : CallId) :
    (g.insert site).site? call = if site.id = call then some site else g.site? call :=
  KeyedList.get?_put ..

theorem ids_insert (g : CallGraph) (site : CallSite) :
    (g.insert site).ids = if site.id ∈ g.ids then g.ids else g.ids ++ [site.id] :=
  KeyedList.keys_put ..

end CallGraph

end GenericCalls
