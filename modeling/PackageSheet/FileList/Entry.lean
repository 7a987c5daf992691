import PackageSheet.Destination

namespace PackageSheet

/-- A file and where it lands in the package. -/
structure Entry where
  source : Path
  destination : Path
deriving DecidableEq

namespace Entry

def below (root source : Path) : Entry :=
  ⟨source, Destination.relative source root⟩

def covers (entries : List Entry) (source : Path) : Bool :=
  entries.any (·.source.same source)

/-- Put entries after others, but one for each file. -/
def gather (entries : List Entry) : List Entry → List Entry
  | [] => entries
  | entry :: more =>
    gather (if covers entries entry.source then entries else entries ++ [entry]) more

def without (entries others : List Entry) : List Entry :=
  entries.filter fun entry => !covers others entry.source

def trim (policy : TrimPolicy) (entries : List Entry) : List Entry :=
  List.zipWith (fun entry destination => { entry with destination }) entries
    (Destination.trim policy (entries.map (·.destination)))

def place (raw : String) (entries : List Entry) : List Entry :=
  entries.map fun entry => { entry with destination := Destination.place raw entry.destination }

end Entry

end PackageSheet
