import PackageSheet.Report

/-!
The command line. The names of the files around the sheet are listed first, then the texts of those
that are loaded are fetched; what a command does with them is settled by `Invocation.run`. Links and
files outside the directories that the arguments name are passed over.
-/

namespace PackageSheet.CommandLine

def version : String := "dev-0.1.0"

/-- No path is long enough to go deeper. -/
def depthLimit : Nat := Disk.pathLimit / 2

/-- The nodes below a directory, down to a depth, in the order of their places. The files are
empty. -/
def listBelow : Nat → Place → IO.FS.DirEntry → IO (List (Place × Node))
  | 0, _, _ => return []
  | depth + 1, place, directory => do
    let entries ← try directory.path.readDir catch _ => pure #[]
    let sorted := entries.toList.mergeSort fun a b => decide (a.fileName ≤ b.fileName)
    let parts ← sorted.mapM fun entry => do
      let found := place ++ [entry.fileName]
      match (← entry.path.symlinkMetadata).type with
      | .dir => return (found, .directory) :: (← listBelow depth found entry)
      | .file => return [(found, .file .empty)]
      | _ => return []
    return parts.flatten

/-- The place of a path that exists. -/
def placeOf? (path : Path) : IO (Option Place) := do
  try
    let found ← IO.FS.realPath path.text
    return some ((Path.mk found.toString).components.filterMap fun
      | .name text => some text
      | _ => none)
  catch _ => return none

/-- The places that were listed and the disk they are on, with one more directory, unless it is in
one of them. -/
def addDirectory (listed : List Place × Disk) (path : Path) : IO (List Place × Disk) := do
  let (places, disk) := listed
  match ← placeOf? path with
  | none => return listed
  | some place =>
    if places.any (·.isPrefixOf place) then return listed
    let found ← listBelow depthLimit place ⟨path.text, "."⟩
    let begun := disk.makeDirectory [] place
    let others := begun.nodes.filter fun node => !place.isPrefixOf node.1 || node.1 == place
    let nodes := (others ++ found).mergeSort fun a b => !decide (b.1 < a.1)
    return (place :: places, { begun with nodes })

/-- The directory of a file. -/
def directoryOf (path : Path) : Path :=
  match path.parent? with
  | some directory => if directory.text = "" then ⟨"."⟩ else directory
  | none => path

def settingsPath (invocation : Invocation) : Path :=
  Settings.pathFor invocation.sheet invocation.config

def directories (invocation : Invocation) : List Path :=
  [⟨"."⟩, directoryOf invocation.sheet, directoryOf (settingsPath invocation)] ++
    invocation.baseDirectory.toList

/-- The files that an invocation reads, as far as the texts at hand tell. -/
def filesToRead (invocation : Invocation) (disk : Disk) : List Path :=
  let loaded := match Sheet.load (.onDisk disk) invocation.sheet with
    | .ok (sheet, _) => sheet.sources
    | .error _ => []
  settingsPath invocation :: invocation.sheet :: loaded

/-- The disk with the content of the file at a place. -/
def fetchFile (disk : Disk) (place : Place) : IO Disk :=
  match disk.node? place with
  | some (.file _) => do
    try
      return disk.put place (.file (← IO.FS.readBinFile ("/" ++ "/".intercalate place)))
    catch _ => return disk
  | _ => return disk

/-- The disk with the contents of the files that an invocation reads. Each round fetches those that
the round before brought to light. -/
def fetch (invocation : Invocation) : Nat → List Place → Disk → IO Disk
  | 0, _, disk => return disk
  | rounds + 1, fetched, disk => do
    let places := (filesToRead invocation disk).filterMap fun path =>
      (disk.locate path).toOption
    let fresh := places.filter (· ∉ fetched)
    if fresh.isEmpty then return disk
    fetch invocation rounds (fresh ++ fetched) (← fresh.foldlM fetchFile disk)

/-- The disk that an invocation works on. -/
def gatherDisk (invocation : Invocation) : IO Disk := do
  let start := (← placeOf? ⟨"."⟩).getD []
  let begun : Disk := { start, workingDirectory := ⟨"/" ++ "/".intercalate start⟩ }
  let (_, disk) ← (directories invocation).foldlM addDirectory ([], begun)
  fetch invocation (disk.nodes.length + 1) [] disk

/-- The variables of the environment. -/
def readVariables : IO (List (String × String)) := do
  let content ← try IO.FS.readBinFile "/proc/self/environ" catch _ => pure .empty
  let texts := (content.toList.splitOn 0).filterMap fun bytes =>
    String.fromUTF8? (.mk bytes.toArray)
  return texts.filterMap fun text =>
    (Settings.splitEquals text.toList).map fun (name, value) =>
      (String.ofList name, String.ofList value)

/-- The directory for logs, if there can be one. -/
def openLogs (environment : List (String × String)) : IO (Option Path) := do
  let logs := Invocation.logDirectory (Environment.ofVariables environment)
  try
    IO.FS.createDirAll logs.text
    return some logs
  catch _ => return none

/-- Reasons of a failure as they are shown, the outermost first. -/
def failureText : List String → String
  | [] => ""
  | [reason] => s!"Error: {reason}\n"
  | [reason, cause] => s!"Error: {reason}\n\nCaused by:\n    {cause}\n"
  | reason :: causes =>
    let numbered := causes.zipIdx.map fun (cause, index) => s!"    {index}: {cause}\n"
    s!"Error: {reason}\n\nCaused by:\n" ++ String.join numbered

/-- Do what an invocation asks for, and write what it tells and its log. -/
def perform (invocation : Invocation) : IO UInt32 := do
  let environment ← readVariables
  let logs ← openLogs environment
  let disk ← gatherDisk invocation
  let report := invocation.run { disk, environment, logs, version }
  IO.print report.output
  IO.eprint report.errorOutput
  if let some directory := logs then
    let header := s!"pkgrules {version} {invocation.name.text}"
    let lines := (header :: report.log).map (· ++ "\n")
    IO.FS.writeFile (invocation.logPath directory).text (String.join lines)
  match report.failure with
  | none => return 0
  | some reasons =>
    IO.eprint (failureText reasons)
    return 1

def usage : String :=
  let commands := " | ".intercalate (Invocation.CommandName.all.map (·.text))
  s!"Usage: pkgrules [OPTIONS] <{commands}>\n"

/-- What is wrong with arguments. -/
def complaint : Invocation.Refusal → String
  | .helpAsked | .versionAsked | .nothingAsked => ""
  | .missingCommand => "error: a command is required\n"
  | .unknownCommand => "error: unrecognized command\n"
  | .unknownOption => "error: unexpected argument\n"
  | .missingWord => "error: a required argument was not given\n"
  | .badValue => "error: an option requires a value\n"
  | .uselessValue => "error: an option does not take a value\n"
  | .repeated => "error: an option cannot be used twice\n"

/-- Answer arguments that ask for nothing that can be done. -/
def refuse (refusal : Invocation.Refusal) : IO UInt32 := do
  match refusal with
  | .versionAsked =>
    IO.print s!"pkgrules {version}\n"
    return 0
  | .helpAsked =>
    IO.print usage
    return 0
  | _ =>
    IO.eprint (complaint refusal ++ usage)
    return 2

end PackageSheet.CommandLine

/-- Do what the arguments ask for, or say why not. -/
def main (arguments : List String) : IO UInt32 :=
  match PackageSheet.Invocation.ofArguments arguments with
  | .error refusal => PackageSheet.CommandLine.refuse refusal
  | .ok invocation => PackageSheet.CommandLine.perform invocation
