import PackageSheet.Glob.Rooted

namespace PackageSheet

/-- Files held in memory, in the order of their paths, with the directory that relative roots
start from. -/
structure Memory where
  files : List (Path × String) := []
  workingDirectory : Path := ⟨"/work"⟩

namespace Memory

/-- Put a file among others in the order of paths. A path that is already there keeps its
spelling. -/
def insertFile (path : Path) (content : String) :
    List (Path × String) → List (Path × String)
  | [] => [(path, content)]
  | (other, old) :: files =>
    if path.same other then (other, content) :: files
    else if path.le other then (path, content) :: (other, old) :: files
    else (other, old) :: insertFile path content files

def ofFiles (files : List (Path × String)) (workingDirectory : Path) : Memory :=
  ⟨files.foldl (fun held (path, content) => insertFile path content held) [], workingDirectory⟩

def read? (memory : Memory) (path : Path) : Option String :=
  (memory.files.find? (·.1.same path)).map (·.2)

def holds (memory : Memory) (path : Path) : Bool :=
  memory.files.any (·.1.startsWith path)

/-- The files that a pattern below a root stands for. -/
def glob (memory : Memory) (root : Path) (pattern : String) :
    Except Glob.Fault (List Path) :=
  (Glob.compile (Glob.rooted root pattern).toList).map fun pieces =>
    (memory.files.map (·.1)).filter fun path => Glob.isMatch pieces path.text.toList

end Memory

end PackageSheet
