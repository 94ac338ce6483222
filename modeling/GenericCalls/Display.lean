import GenericCalls.Store.Basic
import GenericCalls.Substitution

/-! # Display of types

Types and substitutions as text. Declarations are shown by name, and numbers that name no
declaration in angle brackets, so that every type has a text. -/

namespace GenericCalls.Store

def className (s : Store) (id : ClassId) : String :=
  match s.class? id with
  | some d => d.name
  | none => s!"<class#{id}>"

def paramName (s : Store) (id : ParamId) : String :=
  match s.param? id with
  | some d => d.name
  | none => s!"<T#{id}>"

def showWildcard (kind : WildcardKind) : Option String → String
  | none => "?"
  | some bound =>
    match kind with
    | .upper => "? extends " ++ bound
    | .lower => "? super " ++ bound

mutual
def showTy (s : Store) : Ty → String
  | .prim p => p.name
  | .array t => showTy s t ++ "[]"
  | .cls c [] => s.className c
  | .cls c (t :: ts) => s.className c ++ "<" ++ showTy s t ++ showMore s ", " ts ++ ">"
  | .param p => s.paramName p
  | .wild kind none => showWildcard kind none
  | .wild kind (some b) => showWildcard kind (some (showTy s b))
  | .captured i kind none => s!"capture#{i} of " ++ showWildcard kind none
  | .captured i kind (some b) => s!"capture#{i} of " ++ showWildcard kind (some (showTy s b))
  | .inter [] => ""
  | .inter (t :: ts) => showTy s t ++ showMore s " & " ts
  | .null => "null"
  | .unknown => "<unknown>"
def showMore (s : Store) (separator : String) : List Ty → String
  | [] => ""
  | t :: ts => separator ++ showTy s t ++ showMore s separator ts
end

def showBinding (s : Store) : Binding → String
  | .bound t => s.showTy t
  | .erased => "<raw>"

def showSubstitution (s : Store) (σ : Substitution) : String :=
  "\x7b" ++ ", ".intercalate (σ.toList.map fun (p, b) => s.paramName p ++ " -> " ++ s.showBinding b)
    ++ "\x7d"

end GenericCalls.Store
