import GenericCalls.TypeExpr.Scope
import GenericCalls.TypeExpr.Token

/-! # The grammar of type expressions

Derivation trees of the grammar, the tokens that a tree derives, and the type that it denotes where
all its names have a meaning. -/

namespace GenericCalls.TypeExpr

/-! ### Derivation trees -/

mutual
/-- `type := component ('&' component)*` -/
inductive TypeTree where
  | single (c : ComponentTree)
  | join (c : ComponentTree) (rest : TypeTree)
/-- `component := '?' [('extends' | 'super') array] | array` -/
inductive ComponentTree where
  | anything
  | bounded (kind : WildcardKind) (bound : ArrayTree)
  | array (t : ArrayTree)
/-- `array := named ('[' ']')*` -/
inductive ArrayTree where
  | named (t : NamedTree)
  | brackets (t : ArrayTree)
/-- `named := name ['<' type (',' type)* '>']` -/
inductive NamedTree where
  | bare (name : String)
  | applied (name : String) (args : ArgsTree)
/-- `type (',' type)*` -/
inductive ArgsTree where
  | single (t : TypeTree)
  | more (t : TypeTree) (rest : ArgsTree)
end

def keyword : WildcardKind → String
  | .upper => "extends"
  | .lower => "super"

/-! The tokens that a tree derives. -/

mutual
def TypeTree.lexemes : TypeTree → List Lexeme
  | .single c => c.lexemes
  | .join c rest => c.lexemes ++ .symbol .ampersand :: rest.lexemes
def ComponentTree.lexemes : ComponentTree → List Lexeme
  | .anything => [.symbol .question]
  | .bounded kind bound => .symbol .question :: .name (keyword kind) :: bound.lexemes
  | .array t => t.lexemes
def ArrayTree.lexemes : ArrayTree → List Lexeme
  | .named t => t.lexemes
  | .brackets t => t.lexemes ++ [.symbol .opening, .symbol .closing]
def NamedTree.lexemes : NamedTree → List Lexeme
  | .bare name => [.name name]
  | .applied name args => .name name :: .symbol .less :: (args.lexemes ++ [.symbol .greater])
def ArgsTree.lexemes : ArgsTree → List Lexeme
  | .single t => t.lexemes
  | .more t rest => t.lexemes ++ .symbol .comma :: rest.lexemes
end

/-! ### Meaning -/

/-- What names mean: the type that a name means by itself, the class that it means before type
arguments, and how many of these the class takes. -/
structure Vocabulary where
  type : String → Ty → Prop
  head : String → ClassId → Prop
  arity : ClassId → Nat

/-- The type of components: a single one is the type, several make an intersection. -/
def ofComponents : List Ty → Ty
  | [t] => t
  | ts => .inter ts

/-! The types that the parts of a tree denote. -/

mutual
inductive Components (V : Vocabulary) : TypeTree → List Ty → Prop where
  | single {c : ComponentTree} {t : Ty} (h : ComponentDenotes V c t) : Components V (.single c) [t]
  | join {c : ComponentTree} {rest : TypeTree} {t : Ty} {ts : List Ty} (h : ComponentDenotes V c t)
      (hrest : Components V rest ts) : Components V (.join c rest) (t :: ts)
inductive ComponentDenotes (V : Vocabulary) : ComponentTree → Ty → Prop where
  | anything : ComponentDenotes V .anything .anything
  | bounded {kind : WildcardKind} {bound : ArrayTree} {t : Ty} (h : ArrayDenotes V bound t) :
      ComponentDenotes V (.bounded kind bound) (.wild kind (some t))
  | array {a : ArrayTree} {t : Ty} (h : ArrayDenotes V a t) : ComponentDenotes V (.array a) t
inductive ArrayDenotes (V : Vocabulary) : ArrayTree → Ty → Prop where
  | named {a : NamedTree} {t : Ty} (h : NamedDenotes V a t) : ArrayDenotes V (.named a) t
  | brackets {a : ArrayTree} {t : Ty} (h : ArrayDenotes V a t) :
      ArrayDenotes V (.brackets a) (.array t)
inductive NamedDenotes (V : Vocabulary) : NamedTree → Ty → Prop where
  | bare {name : String} {t : Ty} (h : V.type name t) : NamedDenotes V (.bare name) t
  | applied {name : String} {args : ArgsTree} {c : ClassId} {ts : List Ty} (hc : V.head name c)
      (hargs : ArgsDenote V args ts) (harity : ts.length = V.arity c) :
      NamedDenotes V (.applied name args) (.cls c ts)
inductive ArgsDenote (V : Vocabulary) : ArgsTree → List Ty → Prop where
  | single {e : TypeTree} {ts : List Ty} (h : Components V e ts) :
      ArgsDenote V (.single e) [ofComponents ts]
  | more {e : TypeTree} {rest : ArgsTree} {ts us : List Ty} (h : Components V e ts)
      (hrest : ArgsDenote V rest us) : ArgsDenote V (.more e rest) (ofComponents ts :: us)
end

def TypeDenotes (V : Vocabulary) (e : TypeTree) (t : Ty) : Prop :=
  ∃ ts, Components V e ts ∧ t = ofComponents ts

/-- What a name means: a type parameter in scope, else `null` or a primitive type, else a class,
which is raw. -/
inductive NameMeans (s : Store) (scope : Scope) (name : String) : Ty → Prop where
  | param {p : ParamId} (h : scope.get? name = some p) : NameMeans s scope name (.param p)
  | null (hscope : scope.get? name = none) (h : name = "null") : NameMeans s scope name .null
  | prim {p : Primitive} (hscope : scope.get? name = none) (h : name = p.name) :
      NameMeans s scope name (.prim p)
  | cls {c : ClassId} (hscope : scope.get? name = none) (hnull : name ≠ "null")
      (hprim : ∀ p : Primitive, name ≠ p.name) (h : s.classNamed? name = some c) :
      NameMeans s scope name (.raw c)

/-- The vocabulary of a scope: type arguments are given to a name that means a class. -/
def vocabulary (s : Store) (scope : Scope) : Vocabulary where
  type := NameMeans s scope
  head name c := NameMeans s scope name (.raw c)
  arity c := (s.classParams c).length

end GenericCalls.TypeExpr
