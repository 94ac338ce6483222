import GenericCalls.CommandLine.Run

/-! # Command line

Reads the scenario file and prints the report, or what stands against it. -/

namespace GenericCalls.CommandLine

def usage : String :=
  "Usage: generic-calls [OPTIONS] <SCENARIO>\n\n" ++
  "Infer generic type arguments and rank overloads for the calls in a scenario file\n\n" ++
  "Options:\n" ++
  "      --format <FORMAT>   Report format: text or json\n" ++
  "      --call <ID>         Only rank the named calls; may be repeated\n" ++
  "      --bestEffort        Guess from context, overriding the file\n" ++
  "      --noOuterContext    Do not consult enclosing calls, overriding the file\n" ++
  "      --pretty <PRETTY>   Colour text output: true or false\n" ++
  "  -h, --help              Print help\n" ++
  "  -V, --version           Print version\n"

def ArgError.message : ArgError → String
  | invalidValue => "invalid or missing value of an argument"
  | unknownArgument => "unexpected argument"
  | conflict => "an argument cannot be used multiple times"
  | missingPath => "the following required argument was not provided: <SCENARIO>"
  | unneededValue => "unexpected value of an argument"
  | help => usage
  | version => "generic-calls 0.1.0"

def contentOf (path : String) : IO (Except String String) := do
  try
    return .ok (← IO.FS.readFile path)
  catch
    | .noFileOrDirectory .. => return .error "No such file or directory (os error 2)"
    | e => return .error (toString e)

def complaint : List String → String
  | [] => ""
  | [e] => "Error: " ++ e
  | e :: causes => "Error: " ++ e ++ "\n\nCaused by:\n" ++
      "\n".intercalate (causes.map ("    " ++ ·))

def execute (args : List String) : IO UInt32 := do
  match Arguments.ofList args with
  | .error .help => IO.print usage; return 0
  | .error .version => IO.println (ArgError.message .version); return 0
  | .error e => IO.eprintln ("error: " ++ e.message); return 2
  | .ok a =>
    let color ← match a.pretty with
      | some b => pure b
      | none => (← IO.getStdout).isTty
    match run a (← contentOf a.path) color with
    | .ok out => IO.print out; return 0
    | .error e => IO.eprintln (complaint e.chain); return 1

end GenericCalls.CommandLine

def main (args : List String) : IO UInt32 := GenericCalls.CommandLine.execute args
