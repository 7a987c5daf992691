import PackageSheet.Token.Basic

/-!
Reading one token at the start of a text. No text is refused: what cannot be classified becomes an
unknown token. Spelling and rest together are the text (`read_append`), and the spelling is never
empty (`read_spelling_ne_nil`).
-/

namespace PackageSheet

/-- What is read at the start of a text: the class and decoded text of a token, the characters
it is spelled with, and those that follow. -/
structure Lexeme where
  kind : TokenKind
  text : List Char
  spelling : List Char
  rest : List Char

namespace Lexeme

def prepend (text spelling : List Char) (lexeme : Lexeme) : Lexeme :=
  { lexeme with text := text ++ lexeme.text, spelling := spelling ++ lexeme.spelling }

/-- The character that a backslash and another one stand for. -/
def escaped : Char → Char
  | 'n' => '\n'
  | 't' => '\t'
  | 'r' => '\r'
  | c => c

/-- A string literal after its opening quote. It is unknown if a line feed or the end of the
text comes before the closing quote. -/
def quoted (quote : Char) : List Char → Lexeme
  | [] => ⟨.unknown, [], [], []⟩
  | '\n' :: cs => ⟨.unknown, [], [], '\n' :: cs⟩
  | '\\' :: [] => ⟨.unknown, [], ['\\'], []⟩
  | '\\' :: c :: cs => (quoted quote cs).prepend [escaped c] ['\\', c]
  | c :: cs =>
    if c = quote then ⟨.stringLiteral, [], [c], cs⟩
    else (quoted quote cs).prepend [c] [c]

/-- A literal that began with an at sign and a quote, after these. Two quotes stand for one. -/
def atQuoted : List Char → Lexeme
  | [] => ⟨.unknown, [], [], []⟩
  | '\x22' :: '\x22' :: cs => (atQuoted cs).prepend ['\x22'] ['\x22', '\x22']
  | '\x22' :: cs => ⟨.atStringLiteral, [], ['\x22'], cs⟩
  | c :: cs => (atQuoted cs).prepend [c] [c]

/-- A parameter in brackets after the opening one, inside a number of inner pairs. -/
def bracketed : Nat → List Char → Lexeme
  | _, [] => ⟨.unknown, [], [], []⟩
  | 0, ']' :: cs => ⟨.selectorParameter, [], [']'], cs⟩
  | depth + 1, ']' :: cs => (bracketed depth cs).prepend [']'] [']']
  | depth, '[' :: cs => (bracketed (depth + 1) cs).prepend ['['] ['[']
  | depth, c :: cs => (bracketed depth cs).prepend [c] [c]

def run (kind : TokenKind) (p : Char → Bool) (cs : List Char) : Lexeme :=
  let taken := cs.takeWhile p
  ⟨kind, taken, taken, cs.dropWhile p⟩

/-- The lexeme after an at sign: a literal, a directive, or nothing more. -/
def afterAt (dialect : Dialect) : List Char → Lexeme
  | '\x22' :: cs => (atQuoted cs).prepend [] ['\x22']
  | c :: cs =>
    if dialect.isStart c then run .directive dialect.isPart (c :: cs)
    else ⟨.unknown, ['@'], [], c :: cs⟩
  | [] => ⟨.unknown, ['@'], [], []⟩

/-- The class of a character that is a token by itself. -/
def single? : Char → Option TokenKind
  | ':' => some .colon
  | ';' => some .semicolon
  | ',' => some .comma
  | '\x7b' => some .openBrace
  | '\x7d' => some .closeBrace
  | '.' => some .dot
  | '#' => some .hash
  | '=' => some .equals
  | _ => none

def isNumberPart (c : Char) : Bool :=
  Text.isDigit c || c == '.'

/-- The lexeme that begins with a character. -/
def read (dialect : Dialect) (c : Char) (cs : List Char) : Lexeme :=
  if c = '\x22' ∨ c = '\x27' then (quoted c cs).prepend [] [c]
  else if c = '@' then (afterAt dialect cs).prepend [] [c]
  else if c = '[' then
    let lexeme := (bracketed 0 cs).prepend [] [c]
    { lexeme with text := Text.trim lexeme.text }
  else
    match single? c with
    | some kind => ⟨kind, [c], [c], cs⟩
    | none =>
      if dialect.isStart c then (run .identifier dialect.isPart cs).prepend [c] [c]
      else if Text.isDigit c then (run .numericLiteral isNumberPart cs).prepend [c] [c]
      else if Text.isPunctuation c then ⟨.symbol, [c], [c], cs⟩
      else ⟨.unknown, [c], [c], cs⟩

@[simp] theorem spelling_prepend (text spelling : List Char) (lexeme : Lexeme) :
    (lexeme.prepend text spelling).spelling = spelling ++ lexeme.spelling := rfl

@[simp] theorem rest_prepend (text spelling : List Char) (lexeme : Lexeme) :
    (lexeme.prepend text spelling).rest = lexeme.rest := rfl

theorem quoted_append (quote : Char) (cs : List Char) :
    (quoted quote cs).spelling ++ (quoted quote cs).rest = cs := by
  fun_induction quoted quote cs <;> simp_all

theorem atQuoted_append (cs : List Char) :
    (atQuoted cs).spelling ++ (atQuoted cs).rest = cs := by
  fun_induction atQuoted cs <;> simp_all

theorem bracketed_append (depth : Nat) (cs : List Char) :
    (bracketed depth cs).spelling ++ (bracketed depth cs).rest = cs := by
  fun_induction bracketed depth cs <;> simp_all

theorem run_append (kind : TokenKind) (p : Char → Bool) (cs : List Char) :
    (run kind p cs).spelling ++ (run kind p cs).rest = cs := by
  simp [run]

private theorem afterAt_append (dialect : Dialect) (cs : List Char) :
    (afterAt dialect cs).spelling ++ (afterAt dialect cs).rest = cs := by
  unfold afterAt
  split
  · simp [atQuoted_append]
  · split
    · exact run_append ..
    · simp
  · simp

/-- A lexeme is spelled with the characters at the start of the text, and the others follow. -/
theorem read_append (dialect : Dialect) (c : Char) (cs : List Char) :
    (read dialect c cs).spelling ++ (read dialect c cs).rest = c :: cs := by
  unfold read
  split
  · simp [quoted_append]
  split
  · simp [afterAt_append]
  split
  · simp [bracketed_append]
  split
  · simp
  split
  · simp [run_append]
  split
  · simp [run_append]
  split <;> simp

/-- A lexeme has at least one character. -/
theorem read_spelling_ne_nil (dialect : Dialect) (c : Char) (cs : List Char) :
    (read dialect c cs).spelling ≠ [] := by
  unfold read
  split
  · simp
  split
  · simp
  split
  · simp
  split
  · simp
  split
  · simp
  split
  · simp
  split <;> simp

end Lexeme

end PackageSheet
