namespace PackageSheet.Glob

/-- An inclusive interval of characters. -/
structure CharRange where
  first : Char
  last : Char
deriving DecidableEq

def CharRange.has (range : CharRange) (c : Char) : Bool :=
  range.first ≤ c && c ≤ range.last

/-- The pieces of a pattern: `literal` stands for one character and `anyChar` for any, `within`
and `outside` for one in or not in some intervals, `anyRun` for any run of characters, and
`anyPath` for any run of directories. -/
inductive Piece where
  | literal (c : Char)
  | anyChar
  | within (ranges : List CharRange)
  | outside (ranges : List CharRange)
  | anyRun
  | anyPath
deriving DecidableEq

/-- Why a text is not a pattern. -/
inductive FaultKind where
  | tooManyStars
  | looseDoubleStar
  | brokenSet
deriving DecidableEq

/-- The message of a fault. -/
def FaultKind.message : FaultKind → String
  | .tooManyStars => "wildcards are either regular \x60*\x60 or recursive \x60**\x60"
  | .looseDoubleStar => "recursive wildcards must form a single path component"
  | .brokenSet => "invalid range pattern"

/-- A fault of a pattern, with the index of the character where it was noticed. -/
structure Fault where
  kind : FaultKind
  position : Nat
deriving DecidableEq

/-- The intervals that the characters of a set stand for: `x-y` is an interval, and every other
character stands for itself. -/
def setRanges : List Char → List CharRange
  | x :: '-' :: y :: cs => ⟨x, y⟩ :: setRanges cs
  | c :: cs => ⟨c, c⟩ :: setRanges cs
  | [] => []

/-- One piece as it is read: the piece, its length in characters, and the characters after
it. -/
structure PieceRead where
  piece : Piece
  length : Nat
  rest : List Char

/-- A set after its opening bracket and its first character, which may be a closing bracket. -/
def readSet (index : Nat) (piece : List CharRange → Piece) (opening : Nat) (first : Char)
    (cs : List Char) : Except Fault PieceRead :=
  let inner := cs.takeWhile (· != ']')
  match cs.dropWhile (· != ']') with
  | [] => .error ⟨.brokenSet, index⟩
  | _ :: rest => .ok ⟨piece (setRanges (first :: inner)), opening + inner.length + 2, rest⟩

/-- Stars after the first of them. Two stars must fill a component, whose slash they take with
them. -/
def readStars (index : Nat) (before : Option Char) (cs : List Char) :
    Except Fault PieceRead :=
  let more := (cs.takeWhile (· == '*')).length
  let rest := cs.dropWhile (· == '*')
  if more = 0 then .ok ⟨.anyRun, 1, rest⟩
  else if more > 1 then .error ⟨.tooManyStars, index + 2⟩
  else if index ≠ 0 ∧ before ≠ some '/' then .error ⟨.looseDoubleStar, index - 1⟩
  else
    match rest with
    | [] => .ok ⟨.anyPath, 2, []⟩
    | '/' :: rest => .ok ⟨.anyPath, 3, rest⟩
    | _ => .error ⟨.looseDoubleStar, index + 2⟩

/-- The piece that begins with a character at an index, after another character. -/
def readPiece (index : Nat) (before : Option Char) (c : Char) (cs : List Char) :
    Except Fault PieceRead :=
  match c with
  | '?' => .ok ⟨.anyChar, 1, cs⟩
  | '*' => readStars index before cs
  | '[' =>
    match cs with
    | '!' :: first :: cs => readSet index .outside 2 first cs
    | '!' :: [] => .error ⟨.brokenSet, index⟩
    | first :: cs => readSet index .within 1 first cs
    | [] => .error ⟨.brokenSet, index⟩
  | c => .ok ⟨.literal c, 1, cs⟩

private theorem length_rest_of_readSet {index opening : Nat} {piece : List CharRange → Piece}
    {first : Char} {cs : List Char} {read : PieceRead}
    (h : readSet index piece opening first cs = .ok read) : read.rest.length ≤ cs.length := by
  have dropped := (List.dropWhile_sublist (fun c => c != ']') (l := cs)).length_le
  unfold readSet at h
  dsimp only at h
  split at h
  · cases h
  · rename_i found
    rw [found] at dropped
    cases h
    exact Nat.le_of_succ_le dropped

private theorem length_rest_of_readStars {index : Nat} {before : Option Char} {cs : List Char}
    {read : PieceRead} (h : readStars index before cs = .ok read) :
    read.rest.length ≤ cs.length := by
  have dropped := (List.dropWhile_sublist (fun c => c == '*') (l := cs)).length_le
  unfold readStars at h
  dsimp only at h
  split at h
  · cases h; exact dropped
  split at h
  · cases h
  split at h
  · cases h
  split at h
  · cases h; simp
  · rename_i found
    rw [found] at dropped
    cases h
    exact Nat.le_of_succ_le dropped
  · cases h

private theorem length_rest_of_readPiece {index : Nat} {before : Option Char} {c : Char}
    {cs : List Char} {read : PieceRead} (h : readPiece index before c cs = .ok read) :
    read.rest.length ≤ cs.length := by
  unfold readPiece at h
  split at h
  · cases h; simp
  · exact length_rest_of_readStars h
  · split at h
    · have := length_rest_of_readSet h
      simp only [List.length_cons]
      omega
    · cases h
    · have := length_rest_of_readSet h
      simp only [List.length_cons]
      omega
    · cases h
  · cases h; simp

/-- Put a piece after others, which are given in reverse. Directly after another, with yet
another piece before, a second run of directories adds nothing. -/
def push (piece : Piece) (done : List Piece) : List Piece :=
  if piece = .anyPath ∧ done.head? = some .anyPath ∧ 1 < done.length then done
  else piece :: done

/-- Read the pieces of a pattern from an index, after those in `done`. -/
def compileFrom (text : List Char) (index : Nat) (before : Option Char) (done : List Piece) :
    Except Fault (List Piece) :=
  match text with
  | [] => .ok done.reverse
  | c :: cs =>
    match _h : readPiece index before c cs with
    | .error fault => .error fault
    | .ok read =>
      let last := ((c :: cs).take read.length).getLast?
      compileFrom read.rest (index + read.length) last (push read.piece done)
termination_by text.length
decreasing_by
  have := length_rest_of_readPiece _h
  simp only [List.length_cons]
  omega

def compile (text : List Char) : Except Fault (List Piece) :=
  compileFrom text 0 none []

end PackageSheet.Glob
