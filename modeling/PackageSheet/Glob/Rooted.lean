import PackageSheet.Glob.Match
import PackageSheet.Path

namespace PackageSheet.Glob

def isMeta (c : Char) : Bool :=
  c == '?' || c == '*' || c == '[' || c == ']'

def escape (cs : List Char) : List Char :=
  cs.flatMap fun c => if isMeta c then ['[', c, ']'] else [c]

/-- A pattern without the `./` at its start, however often it is there. -/
def dropHere : List Char → List Char
  | '.' :: '/' :: cs => dropHere cs
  | cs => cs

def rootText (root : Path) : List Char :=
  (root.text.toList.reverse.dropWhile fun c => c == '/' || c == '\\').reverse

/-- A pattern below a root, whose own characters stand for themselves. An absolute pattern does
without the root. -/
def rooted (root : Path) (pattern : String) : String :=
  if (Path.mk pattern).isAbsolute then pattern
  else String.ofList (escape (rootText root) ++ '/' :: dropHere pattern.toList)

/-- A compiled pattern of paths to leave out. -/
structure Exclusion where
  pieces : List Piece
  absolute : Bool
deriving DecidableEq

namespace Exclusion

/-- The exclusion that a token of a sheet asks for. -/
def compile (token : String) : Except Fault Exclusion :=
  let absolute := (Path.mk token).isAbsolute
  let text := if absolute then token.toList else dropHere token.toList
  (Glob.compile text).map (⟨·, absolute⟩)

/-- All the ways to leave out components at the start, but not all of them. -/
def tails : List Component → List (List Component)
  | [] => []
  | c :: cs => (c :: cs) :: tails cs

/-- Whether a path is left out. An absolute pattern stands for the whole path as it is written,
another one for the names at the end of the path. -/
def excludes (exclusion : Exclusion) (source : Path) : Bool :=
  if exclusion.absolute then isMatch exclusion.pieces source.text.toList
  else
    let names := source.components.filter (·.isName)
    (tails names).any fun tail => isMatch exclusion.pieces (Path.ofComponents tail).text.toList

end Exclusion

end PackageSheet.Glob
