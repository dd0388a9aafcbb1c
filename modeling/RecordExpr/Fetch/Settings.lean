import RecordExpr.Text.Casing

set_option autoImplicit false

namespace RecordExpr

/-- A setting was given a value that it does not have. -/
structure InvalidValue where
  setting : String
  value : String
deriving DecidableEq

def InvalidValue.message (e : InvalidValue) : String :=
  "Invalid value '" ++ e.value ++ "' for " ++ e.setting

/-- What a lookup does whose fetch is already under way: wait for it too, or go without. -/
inductive PendingPolicy where
  | attach
  | detach
deriving DecidableEq, Repr

namespace PendingPolicy

def text : PendingPolicy → String
  | attach => "attach"
  | detach => "detach"

def read (s : String) : Except InvalidValue PendingPolicy :=
  match Text.lowercase s with
  | "attach" => .ok attach
  | "detach" => .ok detach
  | _ => .error ⟨"pending policy", s⟩

end PendingPolicy

/-- Which line ends of an expression text become spaces before it is read. -/
inductive NewlineMode where
  | firstOnly
  | all
deriving DecidableEq, Repr

namespace NewlineMode

def text : NewlineMode → String
  | firstOnly => "first-only"
  | all => "all"

def read (s : String) : Except InvalidValue NewlineMode :=
  match Text.lowercase s with
  | "first-only" => .ok firstOnly
  | "first" => .ok firstOnly
  | "all" => .ok all
  | _ => .error ⟨"newline mode", s⟩

/-- The characters with the first line end replaced by a space. -/
def replaceFirst : List Char → List Char
  | [] => []
  | c :: rest => if c = '\n' then ' ' :: rest else c :: replaceFirst rest

/-- The characters with every line end replaced by a space. -/
def replaceAll (cs : List Char) : List Char := cs.map fun c => if c = '\n' then ' ' else c

def normalize (mode : NewlineMode) (s : String) : String :=
  match mode with
  | firstOnly => String.ofList (replaceFirst s.toList)
  | all => String.ofList (replaceAll s.toList)

end NewlineMode

/-- Why a text is not a count. -/
inductive CountError where
  | empty
  | notDigit
  | tooLarge
deriving DecidableEq, Repr

namespace CountError

def message : CountError → String
  | empty => "cannot parse integer from empty string"
  | notDigit => "invalid digit found in string"
  | tooLarge => "number too large to fit in target type"

end CountError

namespace Count

/-- The largest count: 64 bits. -/
def limit : Nat := 0xFFFFFFFFFFFFFFFF

/-- Digits behind a number that is already read; the first thing wrong from the left is reported. -/
def readDigits : Nat → List Char → Except CountError Nat
  | n, [] => .ok n
  | n, c :: rest =>
    if c.isDigit then
      let next := 10 * n + (c.toNat - '0'.toNat)
      if next ≤ limit then readDigits next rest else .error .tooLarge
    else .error .notDigit

/-- A count, with or without a plus sign. -/
def read (s : String) : Except CountError Nat :=
  match s.toList with
  | [] => .error .empty
  | '+' :: c :: rest => readDigits 0 (c :: rest)
  | cs => readDigits 0 cs

end Count

structure Settings where
  /-- The coordinate reference system that requests name. -/
  crs : String := "EPSG:4326"
  /-- The most records that a request asks for. -/
  pageSize : Option Nat := none
  pendingPolicy : PendingPolicy := .attach
  newlines : NewlineMode := .firstOnly
  /-- The most rounds that an evaluation takes. -/
  maxRounds : Nat := 64
deriving DecidableEq

namespace Settings

/-- A value that was read, or the default. -/
private def orDefault {ε α : Type} (default : α) : Option (Except ε α) → α
  | some (.ok a) => a
  | _ => default

/-- The settings that the variables of an environment ask for. A value that does not read is
ignored, and so is a limit of no rounds. -/
def ofVariables (environment : String → Option String) : Settings :=
  let base : Settings := {}
  let rounds := orDefault base.maxRounds ((environment "FEXPR_MAX_ROUNDS").map Count.read)
  { crs := (environment "FEXPR_CRS").getD base.crs
    pageSize := ((environment "FEXPR_PAGE_SIZE").bind fun s => (Count.read s).toOption)
    pendingPolicy :=
      orDefault base.pendingPolicy ((environment "FEXPR_PENDING_POLICY").map PendingPolicy.read)
    newlines := orDefault base.newlines ((environment "FEXPR_NEWLINES").map NewlineMode.read)
    maxRounds := if rounds = 0 then base.maxRounds else rounds }

end Settings

end RecordExpr
