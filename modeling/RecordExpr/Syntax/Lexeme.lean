import RecordExpr.Syntax.Token

set_option autoImplicit false

namespace RecordExpr

/-- Why a text cannot be cut into tokens. Each range is the one character where that shows. -/
inductive LexError where
  | unexpectedCharacter (range : Range) (c : Char)
  | unterminatedField (range : Range)
  | unterminatedString (range : Range)
deriving DecidableEq

namespace LexError

def range : LexError → Range
  | unexpectedCharacter range _ => range
  | unterminatedField range => range
  | unterminatedString range => range

def message : LexError → String
  | unexpectedCharacter _ c => "Unexpected character \x60" ++ c.toString ++ "\x60"
  | unterminatedField _ =>
    "Unterminated field reference, expected a closing \x60" ++ "\x7d" ++ "\x60"
  | unterminatedString _ => "Unterminated string literal"

/-- No token begins at this place with this character. -/
def atCharacter (here : Position) (c : Char) : LexError :=
  let range : Range := ⟨here, ⟨here.line, here.column + 1⟩⟩
  if c = '\x7b' then unterminatedField range
  else if c = '\'' ∨ c = '"' then unterminatedString range
  else unexpectedCharacter range c

end LexError

namespace Lexeme

def isSpace (c : Char) : Bool := c == ' ' || c == '\t' || c == '\r' || c == '\n'

def isWordStart (c : Char) : Bool := c.isAlpha || c == '_'

def isWordPart (c : Char) : Bool := c.isAlphanum || c == '_'

/-- The character that an escape inside a string stands for. -/
def unescape? : Char → Option Char
  | '\\' => some '\\'
  | '\'' => some '\''
  | '"' => some '"'
  | 'r' => some '\r'
  | 'n' => some '\n'
  | 't' => some '\t'
  | _ => none

/-- The characters of a string behind its opening quote, and how many characters they take up
together with the closing quote. -/
def quoted? (quote : Char) : List Char → Option (List Char × Nat)
  | [] => none
  | [c] => if c = quote then some ([], 1) else none
  | c :: e :: rest =>
    if c = quote then some ([], 1)
    else if c = '\\' then do
      let escaped ← unescape? e
      let (body, width) ← quoted? quote rest
      return (escaped :: body, width + 2)
    else do
      let (body, width) ← quoted? quote (e :: rest)
      return (c :: body, width + 1)

/-- Digits, and a point with more digits if some follow it. -/
def numberWidth (cs : List Char) : Nat × Nat :=
  let whole := cs.takeWhile Char.isDigit
  match cs.dropWhile Char.isDigit with
  | '.' :: rest => (whole.length, (rest.takeWhile Char.isDigit).length)
  | _ => (whole.length, 0)

/-- The number literal that begins with the digit `c`. -/
def number (c : Char) (rest : List Char) : TokenKind × Nat :=
  let cs := c :: rest
  let (whole, fraction) := numberWidth cs
  let digits := cs.take whole ++ (cs.drop (whole + 1)).take fraction
  let value := Decimal.toNumber false ⟨Number.digitsValue digits, -(fraction : Int)⟩
  (.literal (.number value), whole + (if fraction = 0 then 0 else fraction + 1) - 1)

/-- The operators and marks of punctuation that begin with `c`. -/
def mark? (c : Char) (rest : List Char) : Option (TokenKind × Nat) :=
  let compare (relation : Comparison) (more : Nat) : Option (TokenKind × Nat) :=
    some (.operator (.compare relation), more)
  let next := rest.head?
  match c with
  | '=' => if next = some '=' then compare .equal 1 else compare .equal 0
  | '!' => if next = some '=' then compare .notEqual 1 else none
  | '<' =>
    if next = some '>' then compare .notEqual 1
    else if next = some '=' then compare .lessEqual 1
    else compare .less 0
  | '>' => if next = some '=' then compare .greaterEqual 1 else compare .greater 0
  | '+' => some (.operator .add, 0)
  | '-' => some (.operator .subtract, 0)
  | '*' => some (.operator .multiply, 0)
  | '/' => some (.operator .divide, 0)
  | '%' => some (.operator .modulo, 0)
  | '(' => some (.leftParen, 0)
  | ')' => some (.rightParen, 0)
  | ',' => some (.comma, 0)
  | '.' => some (.dot, 0)
  | _ => none

/-- The kind of a word; keywords are known in any letter case. -/
def wordKind (word : List Char) : TokenKind :=
  match String.ofList (word.map Char.toLower) with
  | "and" => .operator .and
  | "or" => .operator .or
  | "not" => .not
  | "like" => .operator (.compare .like)
  | "true" => .literal (.bool true)
  | "false" => .literal (.bool false)
  | "null" => .literal .null
  | _ => .word (String.ofList word)

end Lexeme

open Lexeme in
/-- The token that begins with `c`, and how many characters of `rest` belong to it too. -/
def lexeme? (c : Char) (rest : List Char) : Option (TokenKind × Nat) :=
  if c = '\x7b' then
    let name := rest.takeWhile (· ≠ '\x7d')
    if name.length < rest.length then
      some (.field (Text.trim (String.ofList name)), name.length + 1)
    else none
  else if c.isDigit then some (number c rest)
  else if c = '\'' ∨ c = '"' then
    (quoted? c rest).map fun (body, width) => (.literal (.string (String.ofList body)), width)
  else if isWordStart c then
    let more := rest.takeWhile isWordPart
    some (wordKind (c :: more), more.length)
  else mark? c rest

namespace Token

/-- The tokens of the text that begins at `here`, with the end of the text as the last one. -/
def scan (here : Position) : List Char → Except LexError (List Token)
  | [] => .ok [⟨.endOfText, ⟨here, here⟩⟩]
  | c :: rest =>
    if Lexeme.isSpace c then scan (here.next c) rest
    else
      match lexeme? c rest with
      | none => .error (LexError.atCharacter here c)
      | some (kind, more) => do
        let after := here.advance (c :: rest.take more)
        let tokens ← scan after (rest.drop more)
        return ⟨kind, ⟨here, after⟩⟩ :: tokens
termination_by cs => cs.length
decreasing_by
  all_goals simp only [List.length_cons, List.length_drop]
  all_goals omega

/-- The tokens of a text. -/
def ofText (text : List Char) : Except LexError (List Token) := scan ⟨1, 1⟩ text

end Token

end RecordExpr
