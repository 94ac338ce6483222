/-! # Painted text

Text in colours and weights, as terminals show it. -/

namespace GenericCalls.Report

inductive Style where
  | heading | marker | exact | boxing | variadic | inapplicable | warning | failure | ambiguity
  | result
deriving DecidableEq, Repr, Inhabited

def Style.codes : Style → String
  | heading => "1"
  | marker => "1;32"
  | exact => "32"
  | boxing => "36"
  | variadic => "34"
  | inapplicable => "2;31"
  | warning => "33"
  | failure => "1;31"
  | ambiguity => "1;33"
  | result => "36"

def startOf (codes : List Char) : List Char := '\x1b' :: '[' :: codes ++ ['m']

def reset : List Char := ['\x1b', '[', '0', 'm']

/-- A text in which a style, started by `start`, is started again after every end of a style. -/
def restart (start : List Char) : List Char → List Char
  | '\x1b' :: '[' :: '0' :: 'm' :: rest => reset ++ start ++ restart start rest
  | c :: rest => c :: restart start rest
  | [] => []

def paint (color : Bool) (style : Style) (text : String) : String :=
  if color then
    let start := startOf style.codes.toList
    String.ofList (start ++ restart start text.toList ++ reset)
  else text

def padRight (width : Nat) (text : String) : String :=
  text ++ String.ofList (List.replicate (width - text.length) ' ')

end GenericCalls.Report
