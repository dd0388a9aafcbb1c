import RecordExpr.Eval.Basic
import RecordExpr.Syntax.Lexeme
import RecordExpr.Syntax.Parser

set_option autoImplicit false

namespace RecordExpr

inductive Fault where
  | lex (e : LexError)
  | parse (e : ParseError)
  | eval (e : EvalError)
deriving DecidableEq

namespace Fault

def message : Fault → String
  | lex e => e.message
  | parse e => e.message
  | eval e => e.message

def help? : Fault → Option String
  | lex (.unexpectedCharacter _ _) =>
    some "Remove the character or quote it inside a string literal."
  | lex (.unterminatedField _) =>
    some ("Field references are written as \x60" ++ "\x7b" ++ "name" ++ "\x7d" ++ "\x60.")
  | lex (.unterminatedString _) =>
    some "Close the string literal with the quote it was opened with."
  | parse (.unexpectedToken _) => some "Check for syntax errors or misplaced tokens."
  | parse (.unexpectedEnd _) =>
    some "Input ended unexpectedly. Check for missing operands or closing parentheses."
  | parse (.expectedClosingParen _) => none
  | parse (.expectedAttributeName _) =>
    some "Member access is written as \x60expr.attribute\x60."
  | eval (.notDefined _ name) => some ("'" ++ name ++ "' is not a known function.")
  | eval (.wrongArgumentCount _ _ expected given) =>
    some ("Invalid number of arguments: expected " ++ toString expected ++ ", got " ++
      toString given ++ ".")

/-- Where the fault shows; a text that ends too early has no such place. -/
def range? : Fault → Option Range
  | lex e => some e.range
  | parse (.unexpectedEnd _) => none
  | parse e => some e.token.range
  | eval e => some e.token.range

end Fault

/-- The byte offset and byte length of the last character of a text. -/
def lastCharacter (text : List Char) : Nat × Nat :=
  match text.getLast? with
  | none => (0, 0)
  | some c => (text.dropLast.foldr (fun c size => c.utf8Size + size) 0, c.utf8Size)

/-- A fault together with the text it was found in. -/
structure ExprError where
  fault : Fault
  source : String
deriving DecidableEq

namespace ExprError

def message (e : ExprError) : String := e.fault.message

def help? (e : ExprError) : Option String := e.fault.help?

/-- Byte offset and length of the part of the text at fault; its last character if it ends too
early. -/
def location (e : ExprError) : Nat × Nat :=
  match e.fault.range? with
  | some range => range.span e.source.toList
  | none => lastCharacter e.source.toList

end ExprError

namespace Expr

/-- The tokens of a text. -/
def tokenize (text : String) : Except ExprError (List Token) :=
  (Token.ofText text.toList).mapError fun e => ⟨.lex e, text⟩

/-- Telling an error differently changes no success. -/
private theorem mapError_eq_ok {ε ε' α : Type} {x : Except ε α} {f : ε → ε'} {a : α} :
    x.mapError f = .ok a ↔ x = .ok a := by
  cases x with
  | error e =>
      constructor
      · rintro ⟨⟩
      · rintro ⟨⟩
  | ok b =>
      constructor
      · rintro ⟨⟩
        rfl
      · rintro ⟨⟩
        rfl

theorem tokenize_eq_ok {text : String} {tokens : List Token} :
    tokenize text = .ok tokens ↔ Token.ofText text.toList = .ok tokens :=
  mapError_eq_ok

/-- The tree of a text. -/
def ofText (text : String) : Except ExprError Expr := do
  let tokens ← tokenize text
  (ofTokens tokens).mapError fun e => ⟨.parse e, text⟩

/-- A text is read into a tree when its tokens are. -/
theorem ofText_eq_ok {text : String} {e : Expr} :
    ofText text = .ok e ↔
      ∃ tokens, Token.ofText text.toList = .ok tokens ∧ ofTokens tokens = .ok e := by
  simp only [← tokenize_eq_ok, ofText]
  cases tokenize text with
  | error problem =>
      constructor
      · rintro ⟨⟩
      · rintro ⟨_, ⟨⟩, -⟩
  | ok tokens =>
      refine mapError_eq_ok.trans ⟨fun parsed => ⟨tokens, rfl, parsed⟩, ?_⟩
      rintro ⟨_, ⟨rfl⟩, parsed⟩
      exact parsed

/-- The value of a text, or why it has none. -/
def evaluateText (mode : Mode) (subject : Record) (text : String) :
    Dialogue (Except ExprError Value) :=
  match ofText text with
  | .error e => .done (.error e)
  | .ok e => do
    let result ← (e.evaluate mode subject).run
    return result.mapError fun e => ⟨.eval e, text⟩

theorem evaluateText_of_unparsed {text : String} {problem : ExprError}
    (unparsed : ofText text = .error problem) (mode : Mode) (subject : Record) :
    evaluateText mode subject text = .done (.error problem) := by
  rw [evaluateText, unparsed]

theorem evaluateText_of_parsed {text : String} {tree : Expr} (mode : Mode) (subject : Record)
    (parsed : ofText text = .ok tree) :
    evaluateText mode subject text =
      (tree.evaluate mode subject).run.bind fun result =>
        .done (result.mapError fun e => ⟨.eval e, text⟩) := by
  rw [evaluateText, parsed]
  rfl

end Expr

end RecordExpr
