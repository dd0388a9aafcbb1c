import RecordExpr.Value.Json

set_option autoImplicit false

namespace RecordExpr

/-- The parts with a separator between them. -/
def joinTexts (separator : String) (parts : List String) : String :=
  String.intercalate separator parts

mutual

/-- The text that joins into strings and by which a looked-up value is known. -/
def Value.text : Value → String
  | .null => "null"
  | .bool b => if b then "true" else "false"
  | .number n => n.text
  | .string s => s
  | .array items => "[" ++ joinTexts ", " (itemTexts items) ++ "]"
  | .record r => r.toJson.text
  | .filter f => f.text

/-- The text with strings in quotes, also inside arrays. -/
def Value.display : Value → String
  | .null => "null"
  | .bool b => if b then "true" else "false"
  | .number n => n.text
  | .string s => "\"" ++ s ++ "\""
  | .array items => "[" ++ joinTexts ", " (itemDisplays items) ++ "]"
  | .record r => r.toJson.text
  | .filter f => f.text

def Filter.text : Filter → String
  | .compare name relation value =>
    "\x7b" ++ name ++ "\x7d " ++ relation.symbol ++ " " ++ value.display
  | .all parts => "(" ++ joinTexts " and " (partTexts parts) ++ ")"
  | .any parts => "(" ++ joinTexts " or " (partTexts parts) ++ ")"
  | .negation part => "not " ++ part.text

def itemTexts : List Value → List String
  | [] => []
  | v :: rest => v.text :: itemTexts rest

def itemDisplays : List Value → List String
  | [] => []
  | v :: rest => v.display :: itemDisplays rest

def partTexts : List Filter → List String
  | [] => []
  | f :: rest => f.text :: partTexts rest

end

end RecordExpr
