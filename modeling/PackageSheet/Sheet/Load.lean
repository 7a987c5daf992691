import PackageSheet.Diagnostic.Journal
import PackageSheet.Sheet.Basic
import PackageSheet.Storage.Basic

/-!
Loading a sheet with everything it imports. The work is told as a list of events in the order in
which they happen; the rules of the sheet, its files and the reports are read off that list. It
comes to an end because each file that is opened leaves one less to open (`fresh_lt`).
-/

namespace PackageSheet

/-- What happens while a sheet is loaded. -/
inductive LoadEvent where
  | opened (path : Path)
  | problem (d : Diagnostic)
  | rule (rule : Rule)
  | circular (target : String) (location : Location)
  | repeated (path : Path)
  | unreadable (target : String) (location : Location) (failure : ReadFailure)

namespace LoadEvent

def opened? : LoadEvent → Option Path
  | .opened path => some path
  | _ => none

def rule? : LoadEvent → Option Rule
  | .rule found => some found
  | _ => none

/-- What is reported. -/
def entry? : LoadEvent → Option JournalEntry
  | .problem d => some (.diagnostic d)
  | .circular target location =>
    some (.diagnostic ((Problem.circularImport target).diagnosedAt location))
  | .unreadable target location failure =>
    some (.diagnostic ((Problem.unreadableImport target failure.text).diagnosedAt location))
  | .repeated path => some (.note s!"'{path.text}' already loaded")
  | .opened _ | .rule _ => none

end LoadEvent

namespace Loading

/-- The path that an import in a file asks for: below the directory of the file, unless it is
absolute. -/
def target (importer : Path) (text : String) : Path :=
  match importer.parent? with
  | some directory => if (Path.mk text).isAbsolute then ⟨text⟩ else directory.join ⟨text⟩
  | none => ⟨text⟩

/-- The number of files that can still be opened. -/
def fresh (storage : Storage) (loaded : List (List Component)) : Nat :=
  (storage.identities.filter (· ∉ loaded)).length

def opened (storage : Storage) (events : List LoadEvent) : List (List Component) :=
  (events.filterMap LoadEvent.opened?).map storage.identity

theorem fresh_append_le (storage : Storage) (loaded more : List (List Component)) :
    fresh storage (loaded ++ more) ≤ fresh storage loaded := by
  simp only [fresh, ← List.countP_eq_length_filter]
  exact List.countP_mono_left fun identity _ h => by simp_all

/-- Opening a file that was not loaded leaves one less to open. -/
theorem fresh_lt {storage : Storage} {loaded : List (List Component)} {path : Path}
    {text : String} (read : storage.read path = .ok text)
    (new : storage.identity path ∉ loaded) :
    fresh storage (storage.identity path :: loaded) < fresh storage loaded := by
  have mem := storage.identity_mem_of_read read
  have others : storage.identities.filter (· ∉ storage.identity path :: loaded) =
      (storage.identities.filter (· ∉ loaded)).filter (· ≠ storage.identity path) := by
    simp [List.filter_filter, not_or]
  unfold fresh
  rw [others, List.length_filter_lt_length_iff_exists]
  exact ⟨storage.identity path, by simp [mem, new], by simp⟩

/-- Follow the statements of a file, while the files in `stack` wait for imports and those in
`loaded` need not be opened again. -/
def follow (storage : Storage) (stack loaded : List (List Component)) (importer : Path)
    (statements : List Statement) : List LoadEvent :=
  match statements with
  | [] => []
  | .rule rule :: rest => .rule rule :: follow storage stack loaded importer rest
  | .importFile text location :: rest =>
    let path := target importer text
    if storage.identity path ∈ stack then
      .circular text location :: follow storage stack loaded importer rest
    else if _new : storage.identity path ∈ loaded then
      .repeated path :: follow storage stack loaded importer rest
    else
      match _read : storage.read path with
      | .error failure =>
        .unreadable text location failure :: follow storage stack loaded importer rest
      | .ok content =>
        let (inner, problems) := Statement.ofText content (some path)
        let block :=
          .opened path :: problems.map .problem ++
            follow storage (storage.identity path :: stack) (storage.identity path :: loaded) path
              inner
        block ++ follow storage stack (loaded ++ opened storage block) importer rest
termination_by (fresh storage loaded, statements.length)
decreasing_by
  · exact .right _ (by simp)
  · exact .right _ (by simp)
  · exact .right _ (by simp)
  · exact .right _ (by simp)
  · exact .left _ _ (fresh_lt _read _new)
  · exact Prod.Lex.right' _ (fresh_append_le storage loaded _) (by simp)

/-- The events of a file whose text was read, with everything that it imports. -/
def ofFile (storage : Storage) (path : Path) (content : String) : List LoadEvent :=
  let (statements, problems) := Statement.ofText content (some path)
  let identity := storage.identity path
  .opened path :: problems.map .problem ++ follow storage [identity] [identity] path statements

end Loading

/-- The sheet of a file and of everything that it imports, with the reports of the work. Only the
file itself has to be readable. -/
def Sheet.load (storage : Storage) (path : Path) : Except Fatal (Sheet × List JournalEntry) :=
  match storage.read path with
  | .error failure => .error { message := s!"cannot read sheet: {failure.text}", file := path }
  | .ok content =>
    let events := Loading.ofFile storage path content
    .ok ({ rules := events.filterMap LoadEvent.rule?
           sources := events.filterMap LoadEvent.opened? },
      events.filterMap LoadEvent.entry? ++ [.note s!"loaded {path.text}"])

end PackageSheet
