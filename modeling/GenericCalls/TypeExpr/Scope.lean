import GenericCalls.KeyedList
import GenericCalls.Store.Basic

/-! # Scopes of type parameters

The type parameters that a type expression may name. -/

namespace GenericCalls.TypeExpr

/-- The type parameters in scope by name. -/
abbrev Scope := KeyedList String ParamId

namespace Scope

/-- The scope with more type parameters; they shadow those of the same name. -/
def withParams (scope : Scope) (params : List (String × ParamId)) : Scope := scope.putAll params

def withClass (scope : Scope) (s : Store) (c : ClassId) : Scope :=
  scope.withParams ((s.classParams c).filterMap fun p => (s.param? p).map fun d => (d.name, p))

end Scope

end GenericCalls.TypeExpr
