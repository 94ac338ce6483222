/-! # Limits

Every bound on a recursive algorithm of the library stands here, so that the relations on types, the
matcher and the ranking of nested calls cannot drift apart. -/

namespace GenericCalls.Limits

/-- A wildcard met by the sought parameter this deep inside a pattern is refused, not captured. -/
def captureDepth : Nat := 2

/-- Type arguments nested this deep are no longer joined: they become the unbounded wildcard. -/
def lubDepth : Nat := 3

/-- At most this many classes are visited while the supertypes of one class are searched, and at
most this many assignability checks are nested. -/
def hierarchy : Nat := 512

/-- At most this many enclosing calls are consulted at once for the type that they expect. -/
def enclosingCalls : Nat := 20

/-- At most this many nested calls are evaluated at once for their type. -/
def evaluatedCalls : Nat := 64

/-- A chain of type parameters bounded by type parameters is followed this far. -/
def boundChain : Nat := 32

/-- An argument is seen through at most this many bounds and intersections. -/
def liftSteps : Nat := 33

/-- Matching may nest this many steps beyond the sizes of the two types, more than any computer
can. Only supertypes written with ever larger type arguments lead that far. -/
def matchSteps : Nat := 1000000000000000000

/-- Erasing may nest this many steps beyond the sizes of a type and of the declarations, more than
any computer can. Only bounds that run in circles through arrays lead that far. -/
def erasureSteps : Nat := 1000000000000000000

end GenericCalls.Limits
