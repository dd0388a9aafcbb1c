import RecordExpr.Text.Casing

set_option autoImplicit false

namespace RecordExpr

inductive LogFormat where
  | text
  | json
deriving DecidableEq, Repr

structure LogChoice where
  level : String := "warn"
  format : LogFormat := .text
deriving DecidableEq

namespace LogChoice

/-- Every value but `json` means plain text. -/
def readFormat (s : String) : LogFormat :=
  if Text.lowercase s = "json" then .json else .text

/-- The general variable for the level goes before that of this program. -/
def ofVariables (environment : String → Option String) : LogChoice :=
  let base : LogChoice := {}
  { level := (environment "RUST_LOG" <|> environment "FEXPR_LOG_LEVEL").getD base.level
    format := ((environment "FEXPR_LOG_FORMAT").map readFormat).getD base.format }

end LogChoice

end RecordExpr
