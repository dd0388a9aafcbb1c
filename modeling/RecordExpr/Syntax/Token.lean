import RecordExpr.Syntax.Operator
import RecordExpr.Text.Location

set_option autoImplicit false

namespace RecordExpr

inductive TokenKind where
  | literal (l : Literal)
  /-- An attribute name in braces. -/
  | field (name : String)
  | word (name : String)
  | operator (op : BinaryOp)
  | not
  | leftParen
  | rightParen
  | comma
  | dot
  /-- Stands behind the last token of a text. -/
  | endOfText
deriving DecidableEq

namespace TokenKind

/-- The token as error messages show it; a string stands between plain quotes. -/
def text : TokenKind → String
  | literal (.string s) => "'" ++ s ++ "'"
  | literal l => l.text
  | field name => "\x7b" ++ name ++ "\x7d"
  | word name => name
  | operator op => op.symbol
  | not => "not"
  | leftParen => "("
  | rightParen => ")"
  | comma => ","
  | dot => "."
  | endOfText => ""

end TokenKind

structure Token where
  kind : TokenKind
  range : Range
deriving DecidableEq

namespace Token

/-- What stands in for a token when there are none left. -/
def missing : Token := ⟨.endOfText, {}⟩

def isEnd (t : Token) : Bool := t.kind == .endOfText

def text (t : Token) : String := t.kind.text

end Token

end RecordExpr
