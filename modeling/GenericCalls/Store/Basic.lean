import GenericCalls.Ty.Order

/-! # Declarations

The store holds the classes, type parameters and methods that types and calls refer to. They share
one numbering: the number of a declaration is its place in the order of declaration, from 1. A
declaration is made first and completed afterwards, because bounds, supertypes and signatures may
mention the parameters of the declaration they belong to. Completing a declaration that does not
exist changes nothing. -/

namespace GenericCalls

inductive ClassKind where
  | concrete | interface
deriving DecidableEq, Repr, Inhabited

inductive CallableKind where
  | method | constructor
deriving DecidableEq, Repr, Inhabited

inductive Visibility where
  | everywhere | inSubclasses | inPackage | inClass
deriving DecidableEq, Repr, Inhabited

inductive ParamOwner where
  | cls (id : ClassId)
  | method (id : MethodId)
deriving DecidableEq, Repr, Inhabited

/-- A class or interface. Its supertypes are written in terms of its own type parameters. -/
structure ClassDecl where
  name : String
  kind : ClassKind
  params : List ParamId := []
  supertypes : List ClassTy := []
deriving Repr, Inhabited

/-- A type parameter with its upper bounds; the first one is primary. -/
structure ParamDecl where
  name : String
  owner : ParamOwner
  bounds : List Ty := []
deriving Repr, Inhabited

structure Formal where
  name : String
  ty : Ty
deriving Repr, Inhabited

/-- A method or constructor. With variable arity its last formal is an array whose components are
passed one by one. -/
structure MethodDecl where
  name : String
  kind : CallableKind
  owner : Option ClassId
  visibility : Visibility := .everywhere
  typeParams : List ParamId := []
  formals : List Formal := []
  variadic : Bool := false
  returns : Ty := .prim .void
deriving Repr, Inhabited

inductive Decl where
  | cls (d : ClassDecl)
  | param (d : ParamDecl)
  | method (d : MethodDecl)
deriving Repr, Inhabited

/-- The declarations, with the classes that the language itself refers to: the root class, and the
classes that wrap primitive types. -/
structure Store where
  decls : Array Decl := #[]
  root : ClassId := 0
  number : Option ClassId := none
  string : Option ClassId := none
  wrapper : Primitive → Option ClassId := fun _ => none
deriving Inhabited

namespace ClassDecl

def isGeneric (d : ClassDecl) : Bool := !d.params.isEmpty

def isInterface (d : ClassDecl) : Bool := d.kind == .interface

end ClassDecl

namespace MethodDecl

/-- The formal that takes the argument at a position; with variable arity the last one takes all
further arguments. -/
def formalAt? (d : MethodDecl) (index : Nat) : Option Formal :=
  match d.formals[index]? with
  | some f => some f
  | none => if d.variadic then d.formals.getLast? else none

/-- Whether a position belongs to the formal of variable arity. -/
def isVariadicAt (d : MethodDecl) (index : Nat) : Bool :=
  d.variadic && !d.formals.isEmpty && decide (d.formals.length ≤ index + 1)

end MethodDecl

namespace Store

/-! ### Look-up -/

def decl? (s : Store) : Nat → Option Decl
  | 0 => none
  | i + 1 => s.decls[i]?

def class? (s : Store) (id : ClassId) : Option ClassDecl :=
  match s.decl? id with
  | some (.cls d) => some d
  | _ => none

def param? (s : Store) (id : ParamId) : Option ParamDecl :=
  match s.decl? id with
  | some (.param d) => some d
  | _ => none

def method? (s : Store) (id : MethodId) : Option MethodDecl :=
  match s.decl? id with
  | some (.method d) => some d
  | _ => none

def size (s : Store) : Nat := s.decls.size

/-- The last of the first `n` declarations that is a class of this name. -/
def classNamedWithin (s : Store) (name : String) : Nat → Option ClassId
  | 0 => none
  | n + 1 =>
    if (s.class? (n + 1)).any (fun d => d.name == name) then some (n + 1)
    else s.classNamedWithin name n

def classNamed? (s : Store) (name : String) : Option ClassId := s.classNamedWithin name s.size

def object (s : Store) : Ty := .raw s.root

def isObject (s : Store) : Ty → Bool
  | .cls id _ => id == s.root
  | _ => false

def unwrapped? (s : Store) (id : ClassId) : Option Primitive :=
  Primitive.all.find? fun p => s.wrapper p == some id

def classParams (s : Store) (id : ClassId) : List ParamId :=
  ((s.class? id).map ClassDecl.params).getD []

def bounds (s : Store) (p : ParamId) : List Ty := ((s.param? p).map ParamDecl.bounds).getD []

def primaryBound? (s : Store) (p : ParamId) : Option Ty := (s.bounds p).head?

theorem class?_eq_some_iff {s : Store} {c : ClassId} {d : ClassDecl} :
    s.class? c = some d ↔ s.decl? c = some (.cls d) := by
  unfold class?
  cases s.decl? c with
  | none => simp
  | some d => cases d <;> simp

theorem param?_eq_some_iff {s : Store} {p : ParamId} {d : ParamDecl} :
    s.param? p = some d ↔ s.decl? p = some (.param d) := by
  unfold param?
  cases s.decl? p with
  | none => simp
  | some d => cases d <;> simp

theorem method?_eq_some_iff {s : Store} {m : MethodId} {d : MethodDecl} :
    s.method? m = some d ↔ s.decl? m = some (.method d) := by
  unfold method?
  cases s.decl? m with
  | none => simp
  | some d => cases d <;> simp

/-! ### Declaring and completing -/

def modify (s : Store) (f : Decl → Decl) : Nat → Store
  | 0 => s
  | i + 1 => { s with decls := s.decls.modify i f }

def modifyClass (s : Store) (id : ClassId) (f : ClassDecl → ClassDecl) : Store :=
  s.modify (fun | .cls d => .cls (f d) | d => d) id

def modifyParam (s : Store) (id : ParamId) (f : ParamDecl → ParamDecl) : Store :=
  s.modify (fun | .param d => .param (f d) | d => d) id

def modifyMethod (s : Store) (id : MethodId) (f : MethodDecl → MethodDecl) : Store :=
  s.modify (fun | .method d => .method (f d) | d => d) id

def declare (s : Store) (d : Decl) : Store × Nat :=
  ({ s with decls := s.decls.push d }, s.size + 1)

def declareClass (s : Store) (name : String) (kind : ClassKind) : Store × ClassId :=
  s.declare (.cls { name, kind })

/-- Declares a type parameter without bounds and appends it to those of its owner. -/
def declareParam (s : Store) (name : String) (owner : ParamOwner) : Store × ParamId :=
  let (s, id) := s.declare (.param { name, owner })
  match owner with
  | .cls c => (s.modifyClass c fun d => { d with params := d.params ++ [id] }, id)
  | .method m => (s.modifyMethod m fun d => { d with typeParams := d.typeParams ++ [id] }, id)

def declareMethod (s : Store) (name : String) (kind : CallableKind) (owner : Option ClassId) :
    Store × MethodId :=
  s.declare (.method { name, kind, owner })

def addSupertype (s : Store) (id : ClassId) (supertype : ClassTy) : Store :=
  s.modifyClass id fun d => { d with supertypes := d.supertypes ++ [supertype] }

def setBounds (s : Store) (id : ParamId) (bounds : List Ty) : Store :=
  s.modifyParam id fun d => { d with bounds }

def setSignature (s : Store) (id : MethodId) (formals : List Formal) (returns : Ty)
    (variadic : Bool) : Store :=
  s.modifyMethod id fun d => { d with formals, returns, variadic }

def setVisibility (s : Store) (id : MethodId) (visibility : Visibility) : Store :=
  s.modifyMethod id fun d => { d with visibility }

@[simp] theorem size_declare (s : Store) (d : Decl) : (s.declare d).1.size = s.size + 1 := by
  simp [declare, size]

@[simp] theorem size_modify (s : Store) (f : Decl → Decl) (i : Nat) :
    (s.modify f i).size = s.size := by
  cases i <;> simp [modify, size]

theorem decl?_declare (s : Store) (d : Decl) (i : Nat) :
    (s.declare d).1.decl? i = if i = s.size + 1 then some d else s.decl? i := by
  cases i with
  | zero => simp [decl?]
  | succ i =>
    simp only [declare, decl?, size, Array.getElem?_push, Nat.add_right_cancel_iff]

theorem decl?_modify (s : Store) (f : Decl → Decl) (i j : Nat) :
    (s.modify f i).decl? j = if i = j then (s.decl? j).map f else s.decl? j := by
  cases i with
  | zero => cases j <;> rfl
  | succ i =>
    cases j with
    | zero => simp [decl?]
    | succ j => simp [modify, decl?, Array.getElem?_modify]

/-! ### Built-in classes -/

/-- The store that holds only the root class, `Object`. No primitive type has a wrapper in it. -/
def bare : Store :=
  let (s, object) := ({} : Store).declareClass "Object" .concrete
  { s with root := object }

def addWrapper (number : ClassId) (s : Store) (p : Primitive) : Store :=
  match p.wrapperName? with
  | none => s
  | some name =>
    let (s, id) := s.declareClass name .concrete
    let parent := if p = .boolean ∨ p = .char then s.root else number
    let s := s.addSupertype id (.raw parent)
    { s with wrapper := fun q => if q = p then some id else s.wrapper q }

/-- The store that holds `Object`, `Number`, `CharSequence`, `String` and the wrappers of the
primitive types. -/
def standard : Store :=
  let (s, number) := bare.declareClass "Number" .concrete
  let (s, text) := s.declareClass "CharSequence" .interface
  let (s, string) := s.declareClass "String" .concrete
  let s := s.addSupertype string (.raw text)
  Primitive.all.foldl (addWrapper number) { s with number := some number, string := some string }

end Store

end GenericCalls
