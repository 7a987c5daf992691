import PackageSheet.Path
import PackageSheet.Storage.Failure

/-!
A disk is a tree of named nodes without links, kept as the list of its nodes in the order of
their names from the root. Following a path segment by segment leads to a place that exists
(`node?_of_locate`), so each file that can be read is one of the listed nodes.
-/

namespace PackageSheet

/-- What a place on a disk holds. -/
inductive Node where
  | directory
  | file (content : ByteArray)

/-- A place on a disk: the names that lead to it from the root. -/
abbrev Place := List String

/-- A disk lists its nodes below the root in the order of their places, each directory in front
of what is in it. Relative paths start at `start`, and lists without a root of their own at
`workingDirectory`. -/
structure Disk where
  nodes : List (Place × Node) := []
  start : Place := []
  workingDirectory : Path := ⟨"."⟩

namespace Disk

/-- Put a node among others in the order of places. -/
def insertNode (place : Place) (node : Node) : List (Place × Node) → List (Place × Node)
  | [] => [(place, node)]
  | (other, old) :: nodes =>
    if place = other then (place, node) :: nodes
    else if place < other then (place, node) :: (other, old) :: nodes
    else (other, old) :: insertNode place node nodes

/-- The node at a place. The root is a directory that is not listed. -/
def node? (disk : Disk) (place : Place) : Option Node :=
  if place = [] then some .directory
  else (disk.nodes.find? (·.1 == place)).map (·.2)

def put (disk : Disk) (place : Place) (node : Node) : Disk :=
  { disk with nodes := insertNode place node disk.nodes }

/-- The disk with a directory at a place, and with those on the way to it from `above`. -/
def makeDirectory (disk : Disk) (above : Place) : Place → Disk
  | [] => disk
  | name :: names =>
    let place := above ++ [name]
    let next := if (disk.node? place).isSome then disk else disk.put place .directory
    next.makeDirectory place names

/-- The disk with a file at a place, and with the directories on the way to it. -/
def writeFile (disk : Disk) (place : Place) (content : ByteArray) : Disk :=
  (disk.makeDirectory [] place.dropLast).put place (.file content)

/-- The longest name of a node, in bytes. -/
def nameLimit : Nat := 255

/-- The first length of a path, in bytes, that is too long. -/
def pathLimit : Nat := 4096

/-- Follow one segment of a path. Only a directory leads on; an empty segment and `.` stay where
they are, and `..` at the root does too. -/
def follow (disk : Disk) (place : Place) (segment : List Char) : Except ReadFailure Place :=
  match disk.node? place with
  | some .directory =>
    if segment = [] ∨ segment = ['.'] then .ok place
    else if segment = ['.', '.'] then .ok place.dropLast
    else
      let name := String.ofList segment
      if nameLimit < name.utf8ByteSize then .error .nameTooLong
      else if (disk.node? (place ++ [name])).isSome then .ok (place ++ [name])
      else .error .missing
  | some (.file _) => .error .notDirectory
  | none => .error .missing

/-- The place that a path leads to. -/
def locate (disk : Disk) (path : Path) : Except ReadFailure Place :=
  if path.text.toList.contains '\x00' then .error .nulByte
  else if path.text = "" then .error .missing
  else if pathLimit ≤ path.text.utf8ByteSize then .error .nameTooLong
  else
    (Path.segments path.text.toList).foldlM disk.follow
      (if path.isAbsolute then [] else disk.start)

def nodeAt? (disk : Disk) (path : Path) : Option Node :=
  (disk.locate path).toOption.bind disk.node?

def holds (disk : Disk) (path : Path) : Bool :=
  (disk.nodeAt? path).isSome

/-- Whether a path leads to a directory. -/
def isDirectory (disk : Disk) (path : Path) : Bool :=
  match disk.nodeAt? path with
  | some .directory => true
  | _ => false

/-- Whether a path leads to a file. -/
def isFile (disk : Disk) (path : Path) : Bool :=
  match disk.nodeAt? path with
  | some (.file _) => true
  | _ => false

/-- The bytes of the file that a path leads to. -/
def readBytes (disk : Disk) (path : Path) : Except ReadFailure ByteArray :=
  match disk.locate path with
  | .error failure => .error failure
  | .ok place =>
    match disk.node? place with
    | some (.file content) => .ok content
    | some .directory => .error .isDirectory
    | none => .error .missing

/-- The text of the file that a path leads to. -/
def read (disk : Disk) (path : Path) : Except ReadFailure String :=
  match disk.readBytes path with
  | .error failure => .error failure
  | .ok content =>
    match String.fromUTF8? content with
    | some text => .ok text
    | none => .error .notText

/-- The components that tell whether two paths lead to the same place: those of the place, or
those of the path where it leads nowhere. -/
def identity (disk : Disk) (path : Path) : List Component :=
  match disk.locate path with
  | .ok place => .root :: place.map .name
  | .error _ => path.components

/-- The places below a directory, each as the names that lead on from it. -/
def below (disk : Disk) (place : Place) : List Place :=
  (disk.nodes.filter fun node => place.isPrefixOf node.1 && place != node.1).map
    fun node => node.1.drop place.length

/-- The names of the nodes in a directory. -/
def names (disk : Disk) (place : Place) : List String :=
  (disk.below place).filterMap fun
    | [name] => some name
    | _ => none

theorem mem_nodes_of_node? {disk : Disk} {place : Place} {node : Node} (below : place ≠ [])
    (h : disk.node? place = some node) : place ∈ disk.nodes.map (·.1) := by
  simp only [node?, below, if_false, Option.map_eq_some_iff] at h
  obtain ⟨entry, found, -⟩ := h
  have same : entry.1 = place := by simpa using List.find?_some found
  exact same ▸ List.mem_map_of_mem (List.mem_of_find?_eq_some found)

theorem identity_mem_of_read {disk : Disk} {path : Path} {text : String}
    (h : disk.read path = .ok text) :
    disk.identity path ∈ disk.nodes.map fun node => .root :: node.1.map .name := by
  unfold read readBytes at h
  unfold identity
  cases located : disk.locate path with
  | error failure => simp [located] at h
  | ok place =>
    rw [located] at h
    dsimp only at h ⊢
    cases node : disk.node? place with
    | none => simp [node] at h
    | some found =>
      cases found with
      | directory => simp [node] at h
      | file content =>
        have below : place ≠ [] := by rintro rfl; simp [node?] at node
        obtain ⟨entry, mem, rfl⟩ := List.mem_map.mp (mem_nodes_of_node? below node)
        exact List.mem_map.mpr ⟨entry, mem, rfl⟩

end Disk

end PackageSheet
