import PackageSheet.Text.Blank

namespace PackageSheet

/-- What the text between two tokens is in the middle of. -/
inductive Gap where
  | blank
  | lineComment
  | blockComment
deriving DecidableEq

/-- Divide a text into the gap at its start and what follows. A gap holds blanks, comments from
two slashes to the end of the line, and comments from slash and star to the first star and slash
after them, or to the end of the text. -/
def Gap.split : Gap → List Char → List Char × List Char
  | _, [] => ([], [])
  | .blank, '/' :: '/' :: cs =>
    let (gap, rest) := split .lineComment cs
    ('/' :: '/' :: gap, rest)
  | .blank, '/' :: '*' :: cs =>
    let (gap, rest) := split .blockComment cs
    ('/' :: '*' :: gap, rest)
  | .blank, c :: cs =>
    if Text.isBlank c then
      let (gap, rest) := split .blank cs
      (c :: gap, rest)
    else ([], c :: cs)
  | .lineComment, c :: cs =>
    let (gap, rest) := split (if c = '\n' then .blank else .lineComment) cs
    (c :: gap, rest)
  | .blockComment, '*' :: '/' :: cs =>
    let (gap, rest) := split .blank cs
    ('*' :: '/' :: gap, rest)
  | .blockComment, c :: cs =>
    let (gap, rest) := split .blockComment cs
    (c :: gap, rest)

/-- Dividing a text loses nothing. -/
theorem Gap.split_append (mode : Gap) (cs : List Char) :
    (mode.split cs).1 ++ (mode.split cs).2 = cs := by
  fun_induction Gap.split mode cs <;> simp_all

end PackageSheet
