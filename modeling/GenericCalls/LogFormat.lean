/-! # Formats of logs

The format of log output, as its name is given in a setting. -/

namespace GenericCalls

/-- How log output is written: line by line, as an indented tree, or as JSON. -/
inductive LogFormat where
  | text | tree | json
deriving DecidableEq, Repr, Inhabited

namespace LogFormat

def name : LogFormat → String
  | text => "text"
  | tree => "tree"
  | json => "json"

/-- The format that a setting names, in any case of its letters; lines for any other setting. Only
ASCII letters have another letter of these names as their lower case. -/
def ofSetting (value : String) : LogFormat :=
  let letters := value.toList.map Char.toLower
  if letters = "tree".toList then tree
  else if letters = "json".toList then json
  else text

end LogFormat

end GenericCalls
