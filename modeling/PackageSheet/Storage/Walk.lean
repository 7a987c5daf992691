import PackageSheet.Glob.Rooted
import PackageSheet.Storage.Disk

namespace PackageSheet

namespace Glob

/-- One component of a pattern, as it is written and compiled. -/
structure Step where
  text : List Char
  pieces : List Piece

namespace Step

/-- Whether a step is spelled out: such a step is followed without a look at what is there. -/
def isLiteral (step : Step) : Bool :=
  !step.text.any fun c => c == '?' || c == '*' || c == '['

def isDescent (step : Step) : Bool :=
  step.pieces.contains .anyPath

def accepts (step : Step) (name : String) : Bool :=
  isMatch step.pieces name.toList

/-- The special names that a step stands for: only one that begins with a dot does. -/
def specials (step : Step) : List String :=
  if step.pieces.head? = some (.literal '.') then ["..", "."].filter step.accepts else []

end Step

/-- The components of a pattern, without the slash that makes it absolute and without one at
its end. -/
def componentTexts (pattern : List Char) : List (List Char) :=
  let inner := match pattern with
    | '/' :: cs => cs
    | cs => cs
  let texts := Path.segments inner
  if texts.getLast? = some [] then texts.dropLast else texts

/-- The steps of a pattern, which must be a pattern as a whole and in each component. -/
def steps (pattern : List Char) : Except Fault (List Step) := do
  let _ ← compile pattern
  (componentTexts pattern).mapM fun text => (compile text).map (⟨text, ·⟩)

end Glob

namespace Disk

open Glob

/-- The path of a name in a directory. What is in `.` goes by its name alone. -/
def child (path : Path) (name : String) : Path :=
  if path.same ⟨"."⟩ then ⟨name⟩ else path.join ⟨name⟩

/-- Whether a component that is spelled out can be followed: `.` and `..` from any directory,
another one if it leads somewhere. -/
def allows (disk : Disk) (path : Path) (name : String) : Bool :=
  if name = "." ∨ name = ".." then disk.isDirectory path else disk.holds (child path name)

/-- What is in a directory: its own nodes by name. -/
def children (disk : Disk) (path : Path) : List String :=
  match disk.locate path with
  | .ok place => disk.names place
  | .error _ => []

/-- What is below a directory, each with its name and the path that leads to it, a directory in
front of what is in it. -/
def descendants (disk : Disk) (path : Path) : List (String × Path) :=
  match disk.locate path with
  | .ok place =>
    (disk.below place).map fun names => (names.getLast?.getD "", names.foldl child path)
  | .error _ => []

/-- The paths that steps lead to. -/
def search (disk : Disk) : List Step → Path → List Path
  | [], path => [path]
  | step :: steps, path =>
    if step.isLiteral then
      let name := String.ofList step.text
      if disk.allows path name then search disk steps (child path name) else []
    else if !disk.isDirectory path then []
    else if step.isDescent then
      match steps with
      | [] => ((disk.descendants path).map (·.2)).filter disk.isDirectory
      | next :: rest =>
        if next.isDescent then search disk (next :: rest) path
        else
          (disk.descendants path).flatMap fun (name, found) =>
            if next.accepts name then search disk rest found else []
    else
      step.specials.flatMap (fun name => search disk steps (path.join ⟨name⟩)) ++
        (disk.children path).flatMap fun name =>
          if step.accepts name then search disk steps (child path name) else []

/-- The files that a pattern below a root stands for, in the order of paths. With a slash at its
end it asks for directories alone. -/
def glob (disk : Disk) (root : Path) (pattern : String) : Except Fault (List Path) :=
  let whole := rooted root pattern
  (steps whole.toList).map fun steps =>
    let start : Path := if (Path.mk whole).isAbsolute then ⟨"/"⟩ else ⟨"."⟩
    if whole.toList.getLast? = some '/' then []
    else ((disk.search steps start).filter disk.isFile).mergeSort Path.le

end Disk

end PackageSheet
