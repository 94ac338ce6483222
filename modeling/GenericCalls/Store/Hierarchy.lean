import GenericCalls.Limits
import GenericCalls.Store.Basic
import GenericCalls.Substitution

/-! # The class hierarchy

How a class type is seen at one of its supertypes: which type arguments an ancestor gets. A class
type without arguments passes none on, so all its ancestors are raw. Every class reaches the root
class, declared or not. -/

namespace GenericCalls.Store

/-! ### Direct supertypes -/

def isRaw (s : Store) (c : ClassTy) : Bool :=
  c.args.isEmpty && (s.class? c.id).any ClassDecl.isGeneric

/-- The declared supertypes of a class type with its arguments put in; raw ones when it has no
arguments, or not as many as its class has parameters. -/
def directSupertypes (s : Store) (c : ClassTy) : List ClassTy :=
  match s.class? c.id with
  | none => []
  | some d =>
    if c.args.isEmpty || c.args.length != d.params.length then
      d.supertypes.map fun t => .raw t.id
    else
      d.supertypes.map fun t =>
        ((Substitution.ofArgs d.params c.args).substituteClass t).getD (.raw t.id)

/-! ### Ancestors -/

/-- What one class type's supertypes add to the search for an ancestor. -/
inductive Sighting where
  | found (args : List Ty)
  | full
  | missed (visited : List ClassId) (fresh : List ClassTy)
deriving Repr, Inhabited

/-- Looks for `ancestor` among supertypes. A class not visited before is noted, as long as the limit
on visited classes allows. -/
def sight (ancestor : ClassId) : List ClassTy → List ClassId → List ClassTy → Sighting
  | [], visited, fresh => .missed visited fresh.reverse
  | t :: ts, visited, fresh =>
    if t.id = ancestor then .found t.args
    else if Limits.hierarchy ≤ visited.length then .full
    else if t.id ∈ visited then sight ancestor ts visited fresh
    else sight ancestor ts (t.id :: visited) (t :: fresh)

/-- Searches the class types in `queue` and their supertypes, nearest first, for `ancestor`. -/
def searchAncestor (s : Store) (ancestor : ClassId) :
    Nat → List ClassTy → List ClassId → Option (List Ty)
  | 0, _, _ => none
  | _ + 1, [], _ => none
  | n + 1, c :: queue, visited =>
    match sight ancestor (s.directSupertypes c) visited [] with
    | .found args => some args
    | .full => none
    | .missed visited fresh => s.searchAncestor ancestor n (queue ++ fresh) visited

/-- The type arguments of `ancestor` as seen from a class type; none when it is not an ancestor. The
list is empty when the ancestor is not generic or is seen raw. -/
def ancestorArgs (s : Store) (c : ClassTy) (ancestor : ClassId) : Option (List Ty) :=
  if c.id = ancestor then some c.args
  else if ancestor = s.root then some []
  else s.searchAncestor ancestor Limits.hierarchy [c] [c.id]

def isSubclass (s : Store) (c ancestor : ClassId) : Bool :=
  (s.ancestorArgs (.raw c) ancestor).isSome

theorem ancestorArgs_self (s : Store) (c : ClassTy) : s.ancestorArgs c c.id = some c.args := by
  simp [ancestorArgs]

theorem ancestorArgs_root (s : Store) (c : ClassTy) (h : c.id ≠ s.root) :
    s.ancestorArgs c s.root = some [] := by
  simp [ancestorArgs, h]

theorem isSubclass_refl (s : Store) (c : ClassId) : s.isSubclass c c = true := by
  simp [isSubclass, ClassTy.raw, ancestorArgs]

/-! ### Reachable classes -/

/-- Collects the classes reachable from `queue`, nearest first, until the limit is reached. -/
def collectClasses (s : Store) : Nat → List ClassId → List ClassId → List ClassId
  | 0, _, found => found.reverse
  | n + 1, queue, found =>
    match queue.dropWhile (found.contains ·) with
    | [] => found.reverse
    | c :: rest =>
      let supers := ((s.class? c).map fun d => d.supertypes.map ClassTy.id).getD []
      s.collectClasses n (rest ++ supers) (c :: found)

/-- The classes reachable from `starts` through declared supertypes, and the root class. -/
def reachable (s : Store) (starts : List ClassId) : List ClassId :=
  s.collectClasses Limits.hierarchy (starts ++ [s.root]) []

end GenericCalls.Store
