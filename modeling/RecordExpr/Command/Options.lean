import RecordExpr.Fetch.Settings
import RecordExpr.Text.Blank

set_option autoImplicit false

namespace RecordExpr

/-- Why arguments are refused. `help` and `version` are no mistakes, but end the reading as well. -/
inductive UsageError where
  | unknownArgument
  | repeatedArgument
  | missingValue
  | unneededValue
  | invalidValue (message : String)
  | help
  | version
deriving DecidableEq

/-- The options that take a value. -/
inductive OptionName where
  | data
  | record
  | latency
  | crs
  | pageSize
  | pendingPolicy
  | newlines
  | maxRounds
  | batch
deriving DecidableEq

/-- The options that stand alone. -/
inductive FlagName where
  | filter
  | help
  | version
deriving DecidableEq

/-- What the command line asks for. -/
structure Options where
  data : Option String := none
  record : Option String := none
  filter : Bool := false
  latency : Option Nat := none
  crs : Option String := none
  pageSize : Option Nat := none
  pendingPolicy : Option PendingPolicy := none
  newlines : Option NewlineMode := none
  maxRounds : Option Nat := none
  /-- Expressions with names, which settle together. -/
  batch : List (String × String) := []
  exprs : List String := []

namespace Options

def longOption? : String → Option (OptionName ⊕ FlagName)
  | "data" => some (.inl .data)
  | "record" => some (.inl .record)
  | "latency-ms" => some (.inl .latency)
  | "crs" => some (.inl .crs)
  | "page-size" => some (.inl .pageSize)
  | "pending-policy" => some (.inl .pendingPolicy)
  | "newlines" => some (.inl .newlines)
  | "max-rounds" => some (.inl .maxRounds)
  | "batch" => some (.inl .batch)
  | "filter" => some (.inr .filter)
  | "help" => some (.inr .help)
  | "version" => some (.inr .version)
  | _ => none

def shortOption? : Char → Option (OptionName ⊕ FlagName)
  | 'd' => some (.inl .data)
  | 'r' => some (.inl .record)
  | 'b' => some (.inl .batch)
  | 'h' => some (.inr .help)
  | 'V' => some (.inr .version)
  | _ => none

/-- The texts before and behind the first equals sign, if there is one. -/
def splitEquals (cs : List Char) : Option (List Char × List Char) :=
  match cs.dropWhile (· ≠ '=') with
  | _ :: behind => some (cs.takeWhile (· ≠ '='), behind)
  | [] => none

/-- Reads `NAME=EXPR`. -/
def readNamed (s : String) : Except UsageError (String × String) :=
  let refused := UsageError.invalidValue ("expected NAME=EXPR, got '" ++ s ++ "'")
  match splitEquals s.toList with
  | none => .error refused
  | some (name, expr) =>
    let name := Text.trimChars name
    if name.isEmpty then .error refused else .ok (String.ofList name, String.ofList expr)

private def readPath (s : String) : Except UsageError String :=
  if s.isEmpty then .error .missingValue else .ok s

private def readCount (s : String) : Except UsageError Nat :=
  (Count.read s).mapError fun e => .invalidValue e.message

private def readPolicy (s : String) : Except UsageError PendingPolicy :=
  (PendingPolicy.read s).mapError fun e => .invalidValue e.message

private def readNewlines (s : String) : Except UsageError NewlineMode :=
  (NewlineMode.read s).mapError fun e => .invalidValue e.message

/-- The value of an option that may be given once. -/
private def once {α : Type} (given : Option α) (value : Except UsageError α) :
    Except UsageError (Option α) :=
  if given.isSome then .error .repeatedArgument else value.map some

/-- Sets an option to a value. -/
def assign (o : Options) (name : OptionName) (value : String) : Except UsageError Options :=
  match name with
  | .data => return { o with data := ← once o.data (readPath value) }
  | .record => return { o with record := ← once o.record (readPath value) }
  | .latency => return { o with latency := ← once o.latency (readCount value) }
  | .crs => return { o with crs := ← once o.crs (.ok value) }
  | .pageSize => return { o with pageSize := ← once o.pageSize (readCount value) }
  | .pendingPolicy => return { o with pendingPolicy := ← once o.pendingPolicy (readPolicy value) }
  | .newlines => return { o with newlines := ← once o.newlines (readNewlines value) }
  | .maxRounds => return { o with maxRounds := ← once o.maxRounds (readCount value) }
  | .batch => return { o with batch := o.batch ++ [← readNamed value] }

/-- Sets a flag. -/
def raise (o : Options) : FlagName → Except UsageError Options
  | .filter => if o.filter then .error .repeatedArgument else .ok { o with filter := true }
  | .help => .error .help
  | .version => .error .version

/-- The options so far, and the last one if it is not settled: without a value, or with one that was
not judged yet. -/
structure Reading where
  options : Options := {}
  open? : Option (OptionName × Option String) := none

namespace Reading

/-- Judges the value of the last option. That is put off until another option or an expression
begins, so an unknown option behind a bad value is what is reported. -/
def close (r : Reading) : Except UsageError Options :=
  match r.open? with
  | none => .ok r.options
  | some (_, none) => .error .missingValue
  | some (name, some value) => r.options.assign name value

/-- An option or flag with the value that is attached to it, if there is one. -/
def take (r : Reading) (what : OptionName ⊕ FlagName) (attached : Option String) :
    Except UsageError Reading :=
  match what, attached with
  | .inl name, some value => return { options := ← (← r.close).assign name value }
  | .inl name, none => return { options := ← r.close, open? := some (name, none) }
  | .inr _, some _ => .error .unneededValue
  | .inr flag, none => return { options := ← (← r.close).raise flag }

def long (r : Reading) (cs : List Char) : Except UsageError Reading :=
  let (name, attached) := match splitEquals cs with
    | some (name, value) => (name, some (String.ofList value))
    | none => (cs, none)
  match longOption? (String.ofList name) with
  | some what => r.take what attached
  | none => .error .unknownArgument

/-- Letters behind one dash. What follows the letter of an option is its value. -/
def short (r : Reading) : List Char → Except UsageError Reading
  | [] => .ok r
  | c :: rest =>
    match shortOption? c with
    | none => .error .unknownArgument
    | some (.inr flag) => do (← r.take (.inr flag) none).short rest
    | some (.inl name) =>
      let attached := match rest with
        | [] => none
        | '=' :: value => some (String.ofList value)
        | value => some (String.ofList value)
      r.take (.inl name) attached

def expression (r : Reading) (s : String) : Except UsageError Reading := do
  let options ← r.close
  return { options := { options with exprs := options.exprs ++ [s] } }

/-- An argument that is no option: the value that the last one lacks, or an expression. -/
def plain (r : Reading) (s : String) : Except UsageError Reading :=
  match r.open? with
  | some (name, none) => .ok { r with open? := some (name, some s) }
  | _ => r.expression s

def argument (r : Reading) (s : String) : Except UsageError Reading :=
  match s.toList with
  | '-' :: '-' :: name => r.long name
  | '-' :: c :: rest => r.short (c :: rest)
  | _ => r.plain s

/-- All arguments; behind a `--` every one is an expression. -/
def arguments (r : Reading) : List String → Except UsageError Reading
  | [] => .ok r
  | s :: rest =>
    if s = "--" then rest.foldlM expression r
    else do (← r.argument s).arguments rest

end Reading

/-- The options that these arguments make. -/
def read (args : List String) : Except UsageError Options := do
  (← Reading.arguments {} args).close

end Options

end RecordExpr
