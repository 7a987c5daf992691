import PackageSheet.Glob.Pattern

/-!
Matching texts against patterns. Only a literal slash and a run of directories stand for slashes,
so a pattern stands for paths component by component.
-/

namespace PackageSheet.Glob

/-- Whether a piece stands for a character. Only a literal stands for a slash. -/
def Piece.accepts (piece : Piece) (c : Char) : Bool :=
  match piece with
  | .literal l => l == c
  | .anyChar => c != '/'
  | .within ranges => c != '/' && ranges.any (·.has c)
  | .outside ranges => c != '/' && !ranges.any (·.has c)
  | .anyRun | .anyPath => false

/-- What can be left of a text after a run of characters other than slashes. -/
def afterRun : List Char → List (List Char)
  | [] => [[]]
  | c :: cs => (c :: cs) :: if c = '/' then [] else afterRun cs

/-- What can be left of a text after one of its slashes. -/
def afterSlash : List Char → List (List Char)
  | [] => []
  | c :: cs => if c = '/' then cs :: afterSlash cs else afterSlash cs

/-- Whether a pattern stands for a whole text. At its end, a run of directories takes all that
is left. -/
def isMatch : List Piece → List Char → Bool
  | [], cs => cs.isEmpty
  | .anyRun :: ps, cs => (afterRun cs).any (isMatch ps)
  | .anyPath :: ps, cs => ps.isEmpty || isMatch ps cs || (afterSlash cs).any (isMatch ps)
  | p :: ps, c :: cs => p.accepts c && isMatch ps cs
  | _ :: _, [] => false

end PackageSheet.Glob
