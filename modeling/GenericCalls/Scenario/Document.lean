import GenericCalls.Session.Basic
import GenericCalls.Store.Basic

/-! # Scenario documents

A scenario describes classes, methods and calls in text: types are type expressions, and classes,
methods and calls are referred to by name. A document holds what is written, before any name is
looked up. -/

namespace GenericCalls.Scenario

structure ParamEntry where
  name : String
  bounds : List String := []
deriving DecidableEq, Repr, Inhabited

structure ClassEntry where
  name : String
  kind : ClassKind := .concrete
  typeParams : List ParamEntry := []
  supertypes : List String := []
deriving DecidableEq, Repr, Inhabited

/-- A method. Its owner is the class it belongs to; without a return type it returns nothing. -/
structure MethodEntry where
  name : String
  owner : Option String := none
  kind : CallableKind := .method
  visibility : Visibility := .everywhere
  typeParams : List ParamEntry := []
  params : List String := []
  variadic : Bool := false
  returns : Option String := none
deriving DecidableEq, Repr, Inhabited

/-- An argument of a call: of no known type, of the type of an expression, or another call. -/
inductive ArgEntry where
  | untyped
  | typed (type : String)
  | call (id : String)
deriving DecidableEq, Repr, Inhabited

inductive ContextEntry where
  | standalone
  | initial (declared : String)
  | assignment (target : String)
  | returned (expected : Option String)
deriving DecidableEq, Repr, Inhabited

/-- A call. A candidate is named by the name of a method, or by that of its owner and its own;
either stands for all methods so named. -/
structure CallEntry where
  id : String
  kind : CallableKind := .method
  candidates : List String
  args : List ArgEntry := []
  context : Option ContextEntry := none
  typeArgs : List String := []
  receiver : Option String := none
  caller : Option String := none
deriving DecidableEq, Repr, Inhabited

structure Document where
  options : Options := {}
  classes : List ClassEntry := []
  methods : List MethodEntry := []
  calls : List CallEntry := []
deriving DecidableEq, Repr, Inhabited

end GenericCalls.Scenario
