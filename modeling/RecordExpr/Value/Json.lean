import RecordExpr.Value.Basic
import RecordExpr.Json.Basic

set_option autoImplicit false

namespace RecordExpr

namespace Comparison

/-- The operator as filters write it. -/
def symbol : Comparison → String
  | equal => "="
  | notEqual => "!="
  | less => "<"
  | lessEqual => "<="
  | greater => ">"
  | greaterEqual => ">="
  | like => "LIKE"

end Comparison

/-- An integer where the number is one of 64 bits, and null where it is not finite. -/
def Number.toJson (n : Number) : Json :=
  match n.integer? with
  | some i => .integer i
  | none => if n.isFinite then .real n else .null

mutual

def Value.toJson : Value → Json
  | .null => .null
  | .bool b => .bool b
  | .number n => n.toJson
  | .string s => .string s
  | .array items => .array (itemsToJson items)
  | .record r => r.toJson
  | .filter f => f.toJson

def Record.toJson : Record → Json
  | ⟨attributes⟩ => .object (attributesToJson attributes)

def Filter.toJson : Filter → Json
  | .compare name relation value =>
    .array [.string name, .string relation.symbol, value.toJson]
  | .all parts => .object [("and", .array (partsToJson parts))]
  | .any parts => .object [("or", .array (partsToJson parts))]
  | .negation part => .object [("not", part.toJson)]

def itemsToJson : List Value → List Json
  | [] => []
  | v :: rest => v.toJson :: itemsToJson rest

def attributesToJson : List (String × Value) → List (String × Json)
  | [] => []
  | (name, v) :: rest => (name, v.toJson) :: attributesToJson rest

def partsToJson : List Filter → List Json
  | [] => []
  | f :: rest => f.toJson :: partsToJson rest

end

mutual

def Value.ofJson : Json → Value
  | .null => .null
  | .bool b => .bool b
  | .integer i => .number (Number.ofInt i)
  | .real x => .number x
  | .string s => .string s
  | .array items => .array (valuesOfJson items)
  | .object members => .record (Record.ofList (attributesOfJson members))

def valuesOfJson : List Json → List Value
  | [] => []
  | j :: rest => Value.ofJson j :: valuesOfJson rest

def attributesOfJson : List (String × Json) → List (String × Value)
  | [] => []
  | (name, j) :: rest => (name, Value.ofJson j) :: attributesOfJson rest

end

end RecordExpr
