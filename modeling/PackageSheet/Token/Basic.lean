import PackageSheet.Text.Blank
import PackageSheet.Text.Letter
import PackageSheet.Text.Quoted

namespace PackageSheet

/-- The classes of tokens. -/
inductive TokenKind where
  | identifier
  | directive
  | stringLiteral
  | atStringLiteral
  | numericLiteral
  | selectorParameter
  | colon
  | semicolon
  | comma
  | openBrace
  | closeBrace
  | dot
  | hash
  | equals
  | symbol
  | unknown
deriving DecidableEq

/-- The name of a class of tokens in a listing. -/
def TokenKind.text : TokenKind → String
  | .identifier => "Identifier"
  | .directive => "Directive"
  | .stringLiteral => "StringLiteral"
  | .atStringLiteral => "AtStringLiteral"
  | .numericLiteral => "NumericLiteral"
  | .selectorParameter => "SelectorParameter"
  | .colon => "Colon"
  | .semicolon => "Semicolon"
  | .comma => "Comma"
  | .openBrace => "OpenBrace"
  | .closeBrace => "CloseBrace"
  | .dot => "Dot"
  | .hash => "Hash"
  | .equals => "Equals"
  | .symbol => "Symbol"
  | .unknown => "Unknown"

/-- A place between two characters of a text: the bytes before it in UTF-8, and the line and
column of the character after it, counted from 1. -/
structure Position where
  offset : Nat := 0
  line : Nat := 1
  column : Nat := 1
deriving DecidableEq

/-- The place after one more character. -/
def Position.next (p : Position) (c : Char) : Position where
  offset := p.offset + c.utf8Size
  line := if c = '\n' then p.line + 1 else p.line
  column := if c = '\n' then 1 else p.column + 1

def Position.after (p : Position) (cs : List Char) : Position :=
  cs.foldl Position.next p

/-- A token: its class, its decoded text, the bytes it covers, delimiters included, and the
line and column of its first character. -/
structure Token where
  kind : TokenKind
  text : String
  start : Nat
  stop : Nat
  line : Nat
  column : Nat
deriving DecidableEq

def Token.isString (t : Token) : Bool :=
  t.kind == .stringLiteral || t.kind == .atStringLiteral

def Token.describe (t : Token) : String :=
  s!"{t.line}:{t.column} {t.kind.text} {Text.quoted t.text}"

/-- The two ways to spell identifiers: with letters, digits and underscores alone, or with
hyphens after the first character as well. -/
inductive Dialect where
  | standard
  | hyphenated
deriving DecidableEq

namespace Dialect

def isStart (_ : Dialect) (c : Char) : Bool :=
  Text.isLetter c || c == '_'

def isPart (dialect : Dialect) (c : Char) : Bool :=
  Text.isLetter c || Text.isNumeral c || c == '_' || (dialect == .hyphenated && c == '-')

end Dialect

end PackageSheet
