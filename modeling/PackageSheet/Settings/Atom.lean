namespace PackageSheet.Settings

/-- An atom of a settings file. A quoted text that is written over lines cannot be a name. -/
inductive Atom where
  | bare (word : List Char)
  | quoted (text : List Char) (oneLine : Bool)
  | mark (c : Char)
  | lineEnd
deriving DecidableEq

namespace Atom

/-- The text with line feeds for its line ends of two characters. -/
def joinLineEnds : List Char → List Char
  | '\r' :: '\n' :: cs => '\n' :: joinLineEnds cs
  | c :: cs => c :: joinLineEnds cs
  | [] => []

def isPlain (c : Char) : Bool :=
  c == '\t' || (0x20 ≤ c.toNat && c.toNat != 0x7F)

def isSpace (c : Char) : Bool :=
  c == ' ' || c == '\t'

def isBare (c : Char) : Bool :=
  c.isAlphanum || c == '_' || c == '-'

def isMark (c : Char) : Bool :=
  ['=', '.', ',', '\x7b', '\x7d', '[', ']'].contains c

/-- The value of a hexadecimal digit. -/
def hexDigit? (c : Char) : Option Nat :=
  if c.isDigit then some (c.toNat - '0'.toNat)
  else if 'a' ≤ c ∧ c ≤ 'f' then some (c.toNat - 'a'.toNat + 10)
  else if 'A' ≤ c ∧ c ≤ 'F' then some (c.toNat - 'A'.toNat + 10)
  else none

/-- The character with a hexadecimal code. -/
def charOfHex? (digits : List Char) : Option Char := do
  let values ← digits.mapM hexDigit?
  let code := values.foldl (fun code value => 16 * code + value) 0
  if code.isValidChar then some (Char.ofNat code) else none

/-- The character that an escape of one letter stands for. -/
def escaped? : Char → Option Char
  | 'b' => some '\x08'
  | 't' => some '\t'
  | 'n' => some '\n'
  | 'f' => some '\x0c'
  | 'r' => some '\r'
  | '\x22' => some '\x22'
  | '\\' => some '\\'
  | _ => none

/-- A text after its opening quotes, and what follows the closing ones. With escapes, a backslash
begins one; over lines, three quotes close the text, after up to two that belong to it, and a
backslash at the end of a line takes the blanks and line ends after it along. -/
def unquote (quote : Char) (escapes overLines : Bool) (cs : List Char) :
    Option (List Char × List Char) :=
  match cs with
  | [] => none
  | c :: cs =>
    let goOn (text : List Char) : List Char × List Char → List Char × List Char :=
      fun (more, rest) => (text ++ more, rest)
    if c = quote then
      if !overLines then some ([], cs)
      else if cs.take 2 = [quote, quote] then
        let extra := ((cs.drop 2).take 2).takeWhile (· == quote)
        some (extra, cs.drop (2 + extra.length))
      else (unquote quote escapes overLines cs).map (goOn [c])
    else if c = '\n' then
      if overLines then (unquote quote escapes overLines cs).map (goOn [c]) else none
    else if escapes && c == '\\' then
      let lineRest := cs.dropWhile isSpace
      if overLines && lineRest.head? == some '\n' then
        unquote quote escapes overLines
          (lineRest.dropWhile fun c => isSpace c || c == '\n')
      else
        match cs with
        | [] => none
        | kind :: cs =>
          let digits := if kind = 'u' then 4 else if kind = 'U' then 8 else 0
          let decoded := if digits = 0 then escaped? kind
            else if (cs.take digits).length = digits then charOfHex? (cs.take digits) else none
          match decoded with
          | none => none
          | some c => (unquote quote escapes overLines (cs.drop digits)).map (goOn [c])
    else if isPlain c then (unquote quote escapes overLines cs).map (goOn [c])
    else none
termination_by cs.length
decreasing_by
  · simp
  · simp
  · have first := List.dropWhile_suffix (fun c => isSpace c || c == '\n') (l := lineRest)
    have second := List.dropWhile_suffix isSpace (l := cs)
    exact Nat.lt_succ_of_le (Nat.le_trans first.length_le second.length_le)
  · simp only [List.length_drop, List.length_cons]
    omega
  · simp

private theorem length_rest_of_unquote {quote : Char} {escapes overLines : Bool}
    {cs text rest : List Char} (h : unquote quote escapes overLines cs = some (text, rest)) :
    rest.length < cs.length := by
  fun_induction unquote quote escapes overLines cs generalizing text rest with
  | case1 | case6 | case8 | case9 | case12 => cases h
  | case2 => cases h; simp
  | case3 => cases h; simp only [List.length_drop, List.length_cons]; omega
  | case4 | case5 | case11 =>
    rename_i ih
    obtain ⟨⟨inner, left⟩, found, same⟩ := Option.map_eq_some_iff.mp h
    cases same
    exact Nat.lt_succ_of_lt (ih found)
  | case7 =>
    rename_i cs _ _ _ lineRest _ ih
    have first := List.dropWhile_suffix (fun c => isSpace c || c == '\n') (l := lineRest)
    have second := List.dropWhile_suffix isSpace (l := cs)
    have shorter := Nat.le_trans first.length_le second.length_le
    exact Nat.lt_succ_of_lt (Nat.lt_of_lt_of_le (ih h) shorter)
  | case10 =>
    rename_i ih
    obtain ⟨⟨inner, left⟩, found, same⟩ := Option.map_eq_some_iff.mp h
    cases same
    have := ih found
    simp only [List.length_drop, List.length_cons] at this ⊢
    omega

/-- The text that begins with a quote, and what follows it. Three quotes open a text over lines,
which does not begin with a line end. -/
def readQuoted (quote : Char) (cs : List Char) : Option (Atom × List Char) :=
  let escapes := quote == '\x22'
  if cs.take 2 = [quote, quote] then
    let inner := match cs.drop 2 with
      | '\n' :: inner => inner
      | inner => inner
    (unquote quote escapes true inner).map fun (text, rest) => (.quoted text false, rest)
  else (unquote quote escapes false cs).map fun (text, rest) => (.quoted text true, rest)

private theorem length_rest_of_readQuoted {quote : Char} {cs rest : List Char} {atom : Atom}
    (h : readQuoted quote cs = some (atom, rest)) : rest.length < cs.length := by
  unfold readQuoted at h
  dsimp only at h
  split at h
  · obtain ⟨⟨text, left⟩, found, same⟩ := Option.map_eq_some_iff.mp h
    cases same
    have shorter := length_rest_of_unquote found
    have dropped : (cs.drop 2).length ≤ cs.length := by simp
    split at shorter
    · rename_i inner after
      rw [after] at dropped
      exact Nat.lt_of_lt_of_le (Nat.lt_succ_of_lt shorter) dropped
    · exact Nat.lt_of_lt_of_le shorter dropped
  · obtain ⟨⟨text, left⟩, found, same⟩ := Option.map_eq_some_iff.mp h
    cases same
    exact length_rest_of_unquote found

/-- The atoms of a text whose line ends are line feeds; `none` if a character has no place. -/
def ofChars (cs : List Char) : Option (List Atom) :=
  match cs with
  | [] => some []
  | c :: cs =>
    if isSpace c then ofChars cs
    else if c = '\n' then (ofChars cs).map (.lineEnd :: ·)
    else if c = '#' then
      let comment := cs.takeWhile (· != '\n')
      if comment.all isPlain then ofChars (cs.drop comment.length) else none
    else if c = '\x22' ∨ c = '\x27' then
      match _h : readQuoted c cs with
      | none => none
      | some (atom, rest) => (ofChars rest).map (atom :: ·)
    else if isMark c then (ofChars cs).map (.mark c :: ·)
    else if isBare c then
      let more := cs.takeWhile isBare
      (ofChars (cs.drop more.length)).map (.bare (c :: more) :: ·)
    else none
termination_by cs.length
decreasing_by
  · simp
  · simp
  · simp only [List.length_drop, List.length_cons]; omega
  · exact Nat.lt_succ_of_lt (length_rest_of_readQuoted _h)
  · simp
  · simp only [List.length_drop, List.length_cons]; omega

/-- The atoms of a settings file. A byte order mark at its start is passed over. -/
def ofText (text : String) : Option (List Atom) :=
  let cs := match text.toList with
    | '\ufeff' :: cs => cs
    | cs => cs
  ofChars (joinLineEnds cs)

end Atom

end PackageSheet.Settings
