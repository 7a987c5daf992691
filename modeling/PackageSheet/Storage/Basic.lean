import PackageSheet.Storage.Memory
import PackageSheet.Storage.Walk

/-!
What the work on sheets asks of the place where files are kept: texts, existence, patterns, and
whether two paths lead to the same file. Memory and disk are two such places.
-/

namespace PackageSheet

/-- A place where files are kept, by its answers. Two paths lead to the same file if they have
the same identity, and what can be read is among finitely many files. -/
structure Storage where
  /-- The text of a file. -/
  read : Path → Except ReadFailure String
  /-- Whether a path leads anywhere. -/
  holds : Path → Bool
  /-- The directory that relative roots start from. -/
  workingDirectory : Path
  /-- The files that a pattern below a root stands for, in the order of paths. -/
  glob : Path → String → Except Glob.Fault (List Path)
  identity : Path → List Component
  /-- The identities of everything that can be read. -/
  identities : List (List Component)
  listed : ∀ path text, read path = .ok text → identity path ∈ identities

namespace Storage

/-- Files in memory. Two paths lead to the same file if they have the same components. -/
def inMemory (memory : Memory) : Storage where
  read path := (memory.read? path).elim (.error .notHeld) .ok
  holds := memory.holds
  workingDirectory := memory.workingDirectory
  glob := memory.glob
  identity := Path.components
  identities := memory.files.map fun file => file.1.components
  listed path text h := by
    cases found : memory.read? path with
    | none => simp [found] at h
    | some held =>
      obtain ⟨file, mem, -⟩ := Option.map_eq_some_iff.mp found
      have same : file.1.components = path.components := by
        simpa [Path.same] using List.find?_some mem
      exact List.mem_map.mpr ⟨file, List.mem_of_find?_eq_some mem, same⟩

/-- The files of a disk. -/
def onDisk (disk : Disk) : Storage where
  read := disk.read
  holds := disk.holds
  workingDirectory := disk.workingDirectory
  glob := disk.glob
  identity := disk.identity
  identities := disk.nodes.map fun node => .root :: node.1.map .name
  listed _ _ h := Disk.identity_mem_of_read h

theorem identity_mem_of_read {storage : Storage} {path : Path} {text : String}
    (h : storage.read path = .ok text) : storage.identity path ∈ storage.identities :=
  storage.listed path text h

end Storage

end PackageSheet
