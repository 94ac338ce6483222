import GenericCalls.Store.Hierarchy

/-! # Access to members

Whether a method may be called from inside a class. Packages are not modelled: a member visible in
its package is visible everywhere. -/

namespace GenericCalls

/-- Decides whether a method may be called from inside a class, or from outside of all classes. -/
abbrev AccessRule := MethodDecl → Option ClassId → Bool

def AccessRule.unrestricted : AccessRule := fun _ _ => true

/-- Declared visibility: a member hidden in its class may be called from inside that class only, one
visible in subclasses from inside the class that owns it and its subclasses, any other from
everywhere. -/
def AccessRule.declared (s : Store) : AccessRule := fun method caller =>
  match method.visibility with
  | .everywhere | .inPackage => true
  | .inClass => caller.isSome && caller == method.owner
  | .inSubclasses =>
    match caller, method.owner with
    | some c, some owner => s.isSubclass c owner
    | _, none => true
    | none, some _ => false

end GenericCalls
