import GenericCalls.Display
import GenericCalls.Ranking.Resolution

/-! # Signatures

Methods as text, such as `<T> List<T> Util.wrap(T, Object...)`. -/

namespace GenericCalls.Store

/-- The text of a formal; the last one of a variadic method is shown by its component. -/
def showFormal (s : Store) (variadic : Bool) (t : Ty) : String :=
  match variadic, t with
  | true, .array c => s.showTy c ++ "..."
  | _, t => s.showTy t

def showFormals (s : Store) (variadic : Bool) : List Ty → List String
  | [] => []
  | [t] => [s.showFormal variadic t]
  | t :: ts => s.showTy t :: s.showFormals variadic ts

def showMethod (s : Store) (d : MethodDecl) : String :=
  let params := if d.typeParams.isEmpty then ""
    else "<" ++ ", ".intercalate (d.typeParams.map s.paramName) ++ "> "
  let owner := match d.owner with
    | some c => s.className c ++ "."
    | none => ""
  params ++ s.showTy d.returns ++ " " ++ owner ++ d.name
    ++ "(" ++ ", ".intercalate (s.showFormals d.variadic (d.formals.map Formal.ty)) ++ ")"

def signature (s : Store) (id : MethodId) : String :=
  match s.method? id with
  | some d => s.showMethod d
  | none => s!"<method#{id}>"

end GenericCalls.Store

namespace GenericCalls

def Phase.label : Phase → String
  | exact => "exact"
  | boxing => "boxing"
  | variadic => "varargs"
  | inapplicable => "inapplicable"

end GenericCalls
