/-! # Primitive types

The nine primitive types with their names, the classes that wrap them and the widening conversions
between them. -/

namespace GenericCalls

inductive Primitive where
  | boolean | byte | short | char | int | long | float | double | void
deriving DecidableEq, Repr, Inhabited

namespace Primitive

def all : List Primitive := [boolean, byte, short, char, int, long, float, double, void]

def index : Primitive → Nat
  | boolean => 0
  | byte => 1
  | short => 2
  | char => 3
  | int => 4
  | long => 5
  | float => 6
  | double => 7
  | void => 8

def name : Primitive → String
  | boolean => "boolean"
  | byte => "byte"
  | short => "short"
  | char => "char"
  | int => "int"
  | long => "long"
  | float => "float"
  | double => "double"
  | void => "void"

def ofName? (s : String) : Option Primitive := all.find? fun p => p.name == s

def wrapperName? : Primitive → Option String
  | boolean => some "Boolean"
  | byte => some "Byte"
  | short => some "Short"
  | char => some "Character"
  | int => some "Integer"
  | long => some "Long"
  | float => some "Float"
  | double => some "Double"
  | void => none

/-- Whether a value of the first type converts to the second by identity or widening. -/
def widensTo : Primitive → Primitive → Bool
  | byte, short | byte, int | byte, long | byte, float | byte, double => true
  | short, int | short, long | short, float | short, double => true
  | char, int | char, long | char, float | char, double => true
  | int, long | int, float | int, double => true
  | long, float | long, double => true
  | float, double => true
  | source, target => source == target

theorem mem_all (p : Primitive) : p ∈ all := by cases p <;> decide

theorem ofName?_name (p : Primitive) : ofName? p.name = some p := by cases p <;> decide

theorem widensTo_refl (p : Primitive) : p.widensTo p = true := by cases p <;> rfl

theorem widensTo_trans {p q r : Primitive} (h : p.widensTo q = true) (h' : q.widensTo r = true) :
    p.widensTo r = true := by
  revert h h'; cases p <;> cases q <;> cases r <;> decide

end Primitive

end GenericCalls
