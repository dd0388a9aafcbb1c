import RecordExpr.Fetch.Request
import RecordExpr.Json.Reader
import RecordExpr.Value.Json

set_option autoImplicit false

namespace RecordExpr

/-- Why data cannot be used. -/
inductive DataError where
  | unreadable (path : String)
  | invalidJson
  | unexpectedShape (expected : String)
deriving DecidableEq

namespace DataError

def message : DataError → String
  | unreadable path => "Failed to read " ++ path
  | invalidJson => "Invalid JSON"
  | unexpectedShape expected => "Expected " ++ expected

def help? : DataError → Option String
  | unexpectedShape _ =>
    some ("Records are JSON objects; datasets are objects mapping names to arrays of records.")
  | _ => none

end DataError

/-- The record of an object, and nothing for other documents. -/
def Record.ofJson? : Json → Option Record
  | .object members => some (Record.ofList (attributesOfJson members))
  | _ => none

/-- A document, which has to be JSON. -/
def Json.readOrFail (s : String) : Except DataError Json :=
  match Json.read? s with
  | some document => .ok document
  | none => .error .invalidJson

/-- The value of a step, or this shape as the one that was expected. -/
private def expecting {α : Type} (shape : String) : Option α → Except DataError α
  | some a => .ok a
  | none => .error (.unexpectedShape shape)

def Record.read (s : String) : Except DataError Record := do
  expecting "a JSON object for the record" (Record.ofJson? (← Json.readOrFail s))

namespace Datasets

/-- The records of one dataset. -/
def readRecords (name : String) : Json → Except DataError (List Record)
  | .array items => items.mapM fun item =>
    expecting ("a JSON object for each record of dataset '" ++ name ++ "'") (Record.ofJson? item)
  | _ => .error (.unexpectedShape ("an array of records for dataset '" ++ name ++ "'"))

/-- Reads datasets in the order of their names. -/
def read (s : String) : Except DataError Datasets := do
  match ← Json.readOrFail s with
  | .object members =>
    members.foldlM (fun d (name, records) => return d.add name (← readRecords name records)) {}
  | _ => .error (.unexpectedShape "a JSON object mapping dataset names to records")

end Datasets

end RecordExpr
