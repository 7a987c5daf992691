import PackageSheet.Diagnostic.Problem
import PackageSheet.Sheet.Rule
import PackageSheet.Token.Stream

namespace PackageSheet

/-- What is fixed while one text is read: its characters, its file, and its last token. -/
structure Reading where
  source : List Char
  file : Option Path
  last : Option Token

/-- The outcome of reading from a list of tokens: a result, the problems met, and the tokens
that are left. -/
structure Outcome (α : Type) where
  result : α
  problems : List Diagnostic := []
  rest : List Token

namespace Outcome

variable {α β : Type}

def map (f : α → β) (outcome : Outcome α) : Outcome β :=
  ⟨f outcome.result, outcome.problems, outcome.rest⟩

def after (problems : List Diagnostic) (outcome : Outcome α) : Outcome α :=
  { outcome with problems := problems ++ outcome.problems }

@[simp] theorem rest_map (f : α → β) (outcome : Outcome α) :
    (outcome.map f).rest = outcome.rest := rfl

@[simp] theorem rest_after (problems : List Diagnostic) (outcome : Outcome α) :
    (outcome.after problems).rest = outcome.rest := rfl

end Outcome

namespace Reading

def locate (reading : Reading) (token : Token) : Location :=
  ⟨reading.file, token.line, token.column⟩

/-- The place of the next token, of the last one at the end, or of the start of an empty
text. -/
def here (reading : Reading) : List Token → Location
  | token :: _ => reading.locate token
  | [] =>
    match reading.last with
    | some token => reading.locate token
    | none => ⟨reading.file, 1, 1⟩

def nextIs (kind : TokenKind) : List Token → Bool
  | token :: _ => token.kind == kind
  | [] => false

def skipTo (stops : List TokenKind) (tokens : List Token) : List Token :=
  tokens.dropWhile fun t => !stops.contains t.kind

def skipPast (stops : List TokenKind) (tokens : List Token) : List Token :=
  (skipTo stops tokens).drop 1

/-- Skip past the block that follows, or past the statement if no block is opened. -/
def skipBlock (tokens : List Token) : List Token :=
  let found := skipTo [.semicolon, .openBrace, .closeBrace] tokens
  if nextIs .openBrace found then skipPast [.closeBrace] found else found.drop 1

theorem length_drop_lt_of_nextIs {kind : TokenKind} {tokens : List Token}
    (h : nextIs kind tokens = true) : (tokens.drop 1).length < tokens.length := by
  cases tokens with
  | nil => simp [nextIs] at h
  | cons => simp

theorem length_skipTo_le (stops : List TokenKind) (tokens : List Token) :
    (skipTo stops tokens).length ≤ tokens.length :=
  (List.dropWhile_sublist _).length_le

theorem length_skipPast_le (stops : List TokenKind) (tokens : List Token) :
    (skipPast stops tokens).length ≤ tokens.length - 1 := by
  have := length_skipTo_le stops tokens
  simp only [skipPast, List.length_drop]
  omega

/-- Skipping a block takes at least one token, if there is one. -/
theorem length_skipBlock_le (tokens : List Token) :
    (skipBlock tokens).length ≤ tokens.length - 1 := by
  have found := length_skipTo_le [.semicolon, .openBrace, .closeBrace] tokens
  have past := length_skipPast_le [.closeBrace]
    (skipTo [.semicolon, .openBrace, .closeBrace] tokens)
  unfold skipBlock
  dsimp only
  split
  · omega
  · simp only [List.length_drop]
    omega

end Reading

end PackageSheet
