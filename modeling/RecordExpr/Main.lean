import RecordExpr.Command.Run

set_option autoImplicit false

open RecordExpr

/-- The text of a file, if it can be read. -/
def readFile? (path : String) : IO (Option String) := do
  try return some (← IO.FS.readFile path)
  catch _ => return none

/-- The files that the arguments name, with their texts. -/
def readFiles (args : List String) : IO (List (String × String)) := do
  match Options.read args with
  | .error _ => return []
  | .ok options =>
    let paths := options.data.toList ++ options.record.toList
    let texts ← paths.mapM readFile?
    return (paths.zip texts).filterMap fun (path, text?) => text?.map fun text => (path, text)

/-- The environment variables that settings are read from. -/
def readEnvironment : IO (List (String × String)) := do
  let names := ["FEXPR_CRS", "FEXPR_PAGE_SIZE", "FEXPR_PENDING_POLICY", "FEXPR_NEWLINES",
    "FEXPR_MAX_ROUNDS"]
  let values ← names.mapM fun name => IO.getEnv name
  return (names.zip values).filterMap fun (name, value?) => value?.map fun value => (name, value)

def reportProblem (p : Problem) : IO Unit := do
  IO.eprintln p.message
  if let some help := p.help? then IO.eprintln help

def usageText (e : UsageError) : String :=
  match e with
  | .unknownArgument => "unknown argument"
  | .repeatedArgument => "an argument was given more than once"
  | .missingValue => "an option lacks its value"
  | .unneededValue => "a value was given to a flag"
  | .invalidValue message => message
  | .help => "usage: [OPTIONS] [EXPR]..."
  | .version => "0.1.0"

def main (args : List String) : IO UInt32 := do
  let files ← readFiles args
  let environment ← readEnvironment
  match Command.run (fun name => environment.lookup name) (fun path => files.lookup path) args with
  | .ok reports =>
    for report in reports do
      IO.println report.line
      report.problems.forM reportProblem
    return 0
  | .error (.usage e) =>
    IO.eprintln (usageText e)
    return if e = .help ∨ e = .version then 0 else 2
  | .error e =>
    IO.eprintln (e.message?.getD "")
    return 1
