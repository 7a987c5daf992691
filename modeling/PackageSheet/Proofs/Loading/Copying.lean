import PackageSheet.Proofs.Sheet.Copying
import PackageSheet.Proofs.Sheet.Origin
import PackageSheet.Proofs.Storage.Directory
import PackageSheet.Sheet.Load
import PackageSheet.Storage.Basic

namespace PackageSheet

namespace Disk

variable {disk : Disk} {path other importer : Path} {place last : Place} {text : String}
  {identity : List Component}

/-- An identity is that of a place on the disk. -/
def IsOfPlace (identity : List Component) : Prop :=
  ∃ place : Place, identity = .root :: place.map .name

theorem identity_eq (located : disk.locate path = .ok place) :
    disk.identity path = .root :: place.map .name := by
  rw [Disk.identity, located]

private theorem Goes.identity_eq (goes : disk.Goes path place) (known : IsOfPlace (disk.identity path)) :
    disk.identity path = .root :: place.map .name := by
  obtain ⟨names, own⟩ := known
  cases located : disk.locate path with
  | ok last =>
    rw [Disk.identity_eq located, (locate_eq_ok_iff.mp located).2 |> goes.unique]
  | error failure =>
    have components : path.components = .root :: names.map .name := by
      rw [← own, Disk.identity, located]
    have moves : (names.map Component.name).filter (·.isMove) = names.map .name :=
      List.filter_eq_self.mpr (List.forall_mem_map.mpr fun _ _ => rfl)
    have steps : (Path.steps (Path.segments path.text.toList)).map (·.text.toList) =
        names.map String.toList := by
      rw [Path.steps_eq_filter, components, List.filter_cons_of_neg (by decide), moves, List.map_map]
      rfl
    have start : disk.startOf path = [] := by
      rw [startOf, if_pos (Path.isAbsolute_iff_mem.mpr (components ▸ List.mem_cons_self))]
    have leads := leads_steps goes
    rw [steps, start] at leads
    have named (name : String) (member : name ∈ names) : Path.IsName name.toList := by
      have inside : .name name ∈ path.components := by
        rw [components]
        exact List.mem_cons_of_mem _ (List.mem_map_of_mem member)
      exact Path.isName_of_mem_components inside
    rw [own, eq_of_leads_names named leads, List.nil_append]

private theorem goes_target_iff (tree : disk.IsTree) (located : disk.locate importer = .ok place)
    {content : ByteArray} (held : disk.node? place = some (.file content)) :
    disk.Goes (Loading.target importer text) last ↔
      disk.Leads (if (Path.mk text).isAbsolute then [] else place.dropLast)
        (Path.segments text.toList) last := by
  obtain ⟨parent, found, -, above⟩ := exists_parent tree located held
  rw [Loading.target, found]
  dsimp only
  split
  · rename_i absolute
    rw [Goes, startOf, if_pos absolute]
  · rename_i relative
    have relative := (Bool.not_eq_true _).mp relative
    split at above
    · rename_i empty
      have joined : parent.join ⟨text⟩ = ⟨text⟩ := by
        rcases Path.join_cases parent relative with ⟨-, same⟩ | ⟨cs, filled, -⟩ | ⟨filled, -⟩
        · exact same
        · simp [empty] at filled
        · exact absurd empty filled
      rw [joined, above, Goes, startOf, relative]
      rfl
    · exact goes_join_iff above relative

theorem read_congr (same : disk.locate other = disk.locate path) :
    disk.read other = disk.read path := by
  unfold Disk.read readBytes
  rw [same]

theorem exists_file_of_read {content : String} (read : disk.read path = .ok content) :
    ∃ place bytes, disk.locate path = .ok place ∧ disk.node? place = some (.file bytes) := by
  unfold Disk.read readBytes at read
  cases located : disk.locate path with
  | error failure =>
    rw [located] at read
    cases read
  | ok place =>
    rw [located] at read
    dsimp only at read
    cases held : disk.node? place with
    | none =>
      rw [held] at read
      cases read
    | some node =>
      cases node with
      | directory =>
        rw [held] at read
        cases read
      | file bytes => exact ⟨place, bytes, rfl, held⟩

private theorem read_of_goes (tree : disk.IsTree) {content : String}
    (read : disk.read path = .ok content) (same : ∀ place, disk.Goes path place → disk.Goes other place)
    (short : disk.read other ≠ .error .nameTooLong) :
    disk.read other = .ok content ∧ disk.identity other = disk.identity path := by
  obtain ⟨place, bytes, located, held⟩ := exists_file_of_read read
  rcases (same place (locate_eq_ok_iff.mp located).2).locate_cases tree held with there | long
  · refine ⟨?_, by rw [identity_eq located, identity_eq there]⟩
    rw [read_congr (there.trans located.symm), read]
  · refine absurd ?_ short
    unfold Disk.read readBytes
    rw [long]

end Disk

namespace Loading

variable {storage : Storage} {stack loaded : List (List Component)} {importer : Path} {text : String}
  {location : Location} {rest : List Statement}

def rules (events : List LoadEvent) : List Rule :=
  events.filterMap LoadEvent.rule?

/-- No import is unreadable for the length of its path while some events happen. -/
def AreShort (events : List LoadEvent) : Prop :=
  ∀ text location, .unreadable text location .nameTooLong ∉ events

/-- The events in a file while it is followed for the first time. -/
def inside (storage : Storage) (stack loaded : List (List Component)) (path : Path)
    (statements : List Statement) : List LoadEvent :=
  follow storage (storage.identity path :: stack) (storage.identity path :: loaded) path statements

/-- The events while a file is opened that was not before. -/
def block (storage : Storage) (stack loaded : List (List Component)) (path : Path)
    (content : String) : List LoadEvent :=
  .opened path :: (Statement.ofText content (some path)).2.map .problem ++
    inside storage stack loaded path (Statement.ofText content (some path)).1

/-- At an import, a file is opened. -/
def Opens (storage : Storage) (stack loaded : List (List Component)) (path : Path)
    (content : String) : Prop :=
  storage.identity path ∉ stack ∧ storage.identity path ∉ loaded ∧ storage.read path = .ok content

private theorem follow_of_opens {content : String}
    (opens : Opens storage stack loaded (target importer text) content) :
    follow storage stack loaded importer (.importFile text location :: rest) =
      block storage stack loaded (target importer text) content ++
        follow storage stack (loaded ++ opened storage
          (block storage stack loaded (target importer text) content)) importer rest := by
  obtain ⟨outside, new, read⟩ := opens
  rw [follow]
  dsimp only
  rw [if_neg outside, dif_neg new]
  split
  · rename_i failure failed
    rw [read] at failed
    cases failed
  · rename_i found own
    rw [read] at own
    cases own
    rfl

private theorem exists_follow_of_not_opens
    (closed : ∀ content, ¬ Opens storage stack loaded (target importer text) content) :
    ∃ event : LoadEvent, event.rule? = none ∧ event.opened? = none ∧
      follow storage stack loaded importer (.importFile text location :: rest) =
        event :: follow storage stack loaded importer rest := by
  rw [follow]
  dsimp only
  split
  · exact ⟨_, rfl, rfl, rfl⟩
  · split
    · exact ⟨_, rfl, rfl, rfl⟩
    · split
      · exact ⟨_, rfl, rfl, rfl⟩
      · rename_i outside new content read
        exact absurd ⟨outside, new, read⟩ (closed content)

theorem AreShort.read_ne
    (short : AreShort (follow storage stack loaded importer (.importFile text location :: rest)))
    (outside : storage.identity (target importer text) ∉ stack)
    (new : storage.identity (target importer text) ∉ loaded) :
    storage.read (target importer text) ≠ .error .nameTooLong := by
  intro failed
  refine short text location ?_
  rw [follow]
  dsimp only
  rw [if_neg outside, dif_neg new]
  split
  · rename_i found own
    rw [failed] at own
    cases own
    exact List.mem_cons_self
  · rename_i content own
    rw [failed] at own
    cases own

variable {disk : Disk} {other : Path} {statements : List Statement} {place : Place} {bytes : ByteArray}

/-- Where a file is opened, it is by every path that leads to it. -/
theorem Opens.of_goes (tree : disk.IsTree) {path : Path} {content : String}
    (opens : Opens (.onDisk disk) stack loaded path content)
    (known : ∀ identity ∈ stack ++ loaded, Disk.IsOfPlace identity)
    (same : ∀ place, disk.Goes path place → disk.Goes other place)
    (short : disk.identity other ∉ stack → disk.identity other ∉ loaded →
      disk.read other ≠ .error .nameTooLong) :
    Opens (.onDisk disk) stack loaded other content ∧ disk.identity other = disk.identity path := by
  obtain ⟨outside, new, read⟩ := opens
  obtain ⟨place, bytes, located, -⟩ := Disk.exists_file_of_read read
  have goes := same place (Disk.locate_eq_ok_iff.mp located).2
  have apart (identities : List (List Component)) (part : identities ⊆ stack ++ loaded)
      (absent : disk.identity path ∉ identities) : disk.identity other ∉ identities := by
    intro member
    have identity := goes.identity_eq (known _ (part member))
    rw [identity, ← Disk.identity_eq located] at member
    exact absent member
  have outsideOther := apart stack (List.subset_append_left _ _) outside
  have newOther := apart loaded (List.subset_append_right _ _) new
  obtain ⟨readOther, identity⟩ := Disk.read_of_goes tree read same (short outsideOther newOther)
  exact ⟨⟨outsideOther, newOther, readOther⟩, identity⟩

/-- Some events read copies of the rules that others read, and open the same files. -/
structure Copies (disk : Disk) (events copies : List LoadEvent) : Prop where
  rules : List.Forall₂ (Rule.IsCopyOn disk) (rules events) (rules copies)
  opened : opened (.onDisk disk) copies = opened (.onDisk disk) events
  known : ∀ identity ∈ Loading.opened (.onDisk disk) events, Disk.IsOfPlace identity

namespace Copies

variable {events copies more further : List LoadEvent} {event copy : LoadEvent}

private theorem nil : Copies disk [] [] :=
  ⟨.nil, rfl, nofun⟩

theorem append (first : Copies disk events copies) (second : Copies disk more further) :
    Copies disk (events ++ more) (copies ++ further) where
  rules := by
    rw [Loading.rules, Loading.rules, List.filterMap_append, List.filterMap_append]
    exact List.rel_append first.rules second.rules
  opened := by
    simp only [Loading.opened, List.filterMap_append, List.map_append] at first second ⊢
    exact congrArg₂ _ first.opened second.opened
  known := by
    simp only [Loading.opened, List.filterMap_append, List.map_append]
    exact List.forall_mem_append.mpr ⟨first.known, second.known⟩

theorem of_quiet (quiet : ∀ event ∈ events, event.rule? = none ∧ event.opened? = none)
    (quietCopies : ∀ event ∈ copies, event.rule? = none ∧ event.opened? = none) :
    Copies disk events copies := by
  have none (events : List LoadEvent)
      (quiet : ∀ event ∈ events, event.rule? = none ∧ event.opened? = none) :
      Loading.rules events = [] ∧ Loading.opened (.onDisk disk) events = [] := by
    refine ⟨List.filterMap_eq_nil_iff.mpr fun event member => (quiet event member).1, ?_⟩
    rw [Loading.opened, List.filterMap_eq_nil_iff.mpr fun event member => (quiet event member).2]
    rfl
  obtain ⟨rules, opened⟩ := none events quiet
  obtain ⟨rulesCopies, openedCopies⟩ := none copies quietCopies
  refine ⟨?_, by rw [opened, openedCopies], by rw [opened]; nofun⟩
  rw [rules, rulesCopies]
  exact .nil

private theorem quiet (eventQuiet : event.rule? = none ∧ event.opened? = none)
    (copyQuiet : copy.rule? = none ∧ copy.opened? = none) : Copies disk [event] [copy] :=
  of_quiet (List.forall_mem_singleton.mpr eventQuiet) (List.forall_mem_singleton.mpr copyQuiet)

private theorem problems (first second : List Diagnostic) :
    Copies disk (first.map .problem) (second.map .problem) :=
  of_quiet (List.forall_mem_map.mpr fun _ _ => ⟨rfl, rfl⟩)
    (List.forall_mem_map.mpr fun _ _ => ⟨rfl, rfl⟩)

end Copies

private theorem AreShort.of_append_left {events others : List LoadEvent}
    (short : AreShort (events ++ others)) : AreShort events :=
  fun text location member => short text location (List.mem_append_left others member)

theorem AreShort.of_append_right {events others : List LoadEvent}
    (short : AreShort (events ++ others)) : AreShort others :=
  fun text location member => short text location (List.mem_append_right events member)

theorem AreShort.tail {event : LoadEvent} {events : List LoadEvent}
    (short : AreShort (event :: events)) : AreShort events :=
  fun text location member => short text location (List.mem_cons_of_mem _ member)

theorem goes_target (tree : disk.IsTree) (located : disk.locate importer = .ok place)
    (locatedOther : disk.locate other = .ok place) (held : disk.node? place = some (.file bytes))
    (last : Place) (goes : disk.Goes (target importer text) last) :
    disk.Goes (target other text) last :=
  (Disk.goes_target_iff tree locatedOther held).mpr
    ((Disk.goes_target_iff tree located held).mp goes)

/-- The events of opening a file under two paths, if those in it are alike. -/
theorem copies_block {path : Path} {content : String} (located : disk.locate path = .ok place)
    (same : disk.identity other = disk.identity path)
    (alike : Copies disk
      (inside (.onDisk disk) stack loaded path (Statement.ofText content (some path)).1)
      (inside (.onDisk disk) stack loaded other (Statement.ofText content (some other)).1)) :
    Copies disk (block (.onDisk disk) stack loaded path content)
      (block (.onDisk disk) stack loaded other content) := by
  have opening : Copies disk [.opened path] [.opened other] :=
    ⟨.nil, congrArg (fun identity => [identity]) same,
      List.forall_mem_singleton.mpr ⟨place, Disk.identity_eq located⟩⟩
  exact (opening.append (.problems _ _)).append alike

/-- Following statements in a file under any other of its paths reads copies of the rules and opens the
same files. -/
def FollowsAlike (disk : Disk) (stack loaded : List (List Component)) (importer : Path)
    (statements : List Statement) : Prop :=
  ∀ (other : Path) (place : Place) (bytes : ByteArray), disk.locate importer = .ok place →
    disk.locate other = .ok place → disk.node? place = some (.file bytes) →
    (∀ identity ∈ stack ++ loaded, Disk.IsOfPlace identity) →
    (∀ statement ∈ statements, statement.location.file = some importer) →
    AreShort (follow (.onDisk disk) stack loaded importer statements) →
    AreShort (follow (.onDisk disk) stack loaded other
      (statements.map (·.inFile (some other)))) →
      Copies disk (follow (.onDisk disk) stack loaded importer statements)
        (follow (.onDisk disk) stack loaded other (statements.map (·.inFile (some other))))

private theorem followsAlike_of_not_opens (tree : disk.IsTree)
    (closed : ∀ content, ¬ Opens (.onDisk disk) stack loaded (target importer text) content)
    (later : FollowsAlike disk stack loaded importer rest) :
    FollowsAlike disk stack loaded importer (.importFile text location :: rest) := by
  intro other place bytes located locatedOther held known placed short shortOther
  have readable := short.read_ne
  dsimp only [Storage.onDisk] at readable
  have closedOther (content : String) :
      ¬ Opens (.onDisk disk) stack loaded (target other text) content := fun opens =>
    closed content (opens.of_goes tree known (goes_target tree locatedOther located held)
      readable).1
  obtain ⟨event, rule, opened, events⟩ := exists_follow_of_not_opens closed
  obtain ⟨copy, copyRule, copyOpened, copies⟩ := exists_follow_of_not_opens closedOther
  rw [List.map_cons, Statement.inFile, copies] at shortOther ⊢
  rw [events] at short ⊢
  exact (Copies.quiet ⟨rule, opened⟩ ⟨copyRule, copyOpened⟩).append
    (later other place bytes located locatedOther held known (List.forall_mem_cons.mp placed).2
      short.tail shortOther.tail)

theorem inside_eq {content : String} {path file : Path}
    (same : disk.identity file = disk.identity path) :
    inside (.onDisk disk) stack loaded file (Statement.ofText content (some file)).1 =
      follow (.onDisk disk) ((Storage.onDisk disk).identity path :: stack)
        ((Storage.onDisk disk).identity path :: loaded) file
        ((Statement.ofText content (some path)).1.map (·.inFile (some file))) := by
  rw [inside, Statement.ofText_inFile (some file) (some path)]
  exact congrArg (fun identity => follow _ (identity :: stack) (identity :: loaded) _ _) same

private theorem followsAlike_of_opens (tree : disk.IsTree) {content : String}
    (opens : Opens (.onDisk disk) stack loaded (target importer text) content)
    (entered : FollowsAlike disk ((Storage.onDisk disk).identity (target importer text) :: stack)
      ((Storage.onDisk disk).identity (target importer text) :: loaded) (target importer text)
      (Statement.ofText content (some (target importer text))).1)
    (later : FollowsAlike disk stack (loaded ++ opened (.onDisk disk)
      (block (.onDisk disk) stack loaded (target importer text) content)) importer rest) :
    FollowsAlike disk stack loaded importer (.importFile text location :: rest) := by
  intro other place bytes located locatedOther held known placed short shortOther
  have readable := shortOther.read_ne
  dsimp only [Storage.onDisk] at readable
  obtain ⟨opensOther, identity⟩ := opens.of_goes tree known
    (goes_target tree located locatedOther held) readable
  have read := opens.2.2
  have readOther := opensOther.2.2
  dsimp only [Storage.onDisk] at read readOther
  obtain ⟨last, file, there, fileHeld⟩ := Disk.exists_file_of_read read
  obtain ⟨lastOther, -, thereOther, -⟩ := Disk.exists_file_of_read readOther
  obtain rfl : lastOther = last :=
    (goes_target tree located locatedOther held last (Disk.locate_eq_ok_iff.mp there).2).unique
      (Disk.locate_eq_ok_iff.mp thereOther).2
  rw [List.map_cons, Statement.inFile, follow_of_opens opensOther] at shortOther ⊢
  rw [follow_of_opens opens] at short ⊢
  have own : Disk.IsOfPlace ((Storage.onDisk disk).identity (target importer text)) :=
    ⟨lastOther, Disk.identity_eq there⟩
  have knownInside : ∀ identity ∈ ((Storage.onDisk disk).identity (target importer text) :: stack) ++
      ((Storage.onDisk disk).identity (target importer text) :: loaded), Disk.IsOfPlace identity := by
    obtain ⟨below, before⟩ := List.forall_mem_append.mp known
    exact List.forall_mem_append.mpr
      ⟨List.forall_mem_cons.mpr ⟨own, below⟩, List.forall_mem_cons.mpr ⟨own, before⟩⟩
  have alike : Copies disk (block (.onDisk disk) stack loaded (target importer text) content)
      (block (.onDisk disk) stack loaded (target other text) content) := by
    have innerOther := shortOther.of_append_left.of_append_right
    rw [inside_eq identity] at innerOther
    refine copies_block there identity ?_
    rw [inside_eq identity]
    exact entered _ _ _ there thereOther fileHeld knownInside
      (fun statement member => Statement.file_of_mem_ofText member)
      short.of_append_left.of_append_right innerOther
  rw [alike.opened] at shortOther ⊢
  refine alike.append (later _ _ _ located locatedOther held ?_ (List.forall_mem_cons.mp placed).2
    short.of_append_right shortOther.of_append_right)
  rw [← List.append_assoc]
  exact List.forall_mem_append.mpr ⟨known, alike.known⟩

private theorem followsAlike (tree : disk.IsTree) (stack loaded : List (List Component))
    (importer : Path)
    (statements : List Statement) : FollowsAlike disk stack loaded importer statements := by
  induction stack, loaded, importer, statements using follow.induct (.onDisk disk) with
  | case1 stack loaded importer =>
    intro other place bytes located locatedOther held known placed short shortOther
    rw [List.map_nil, follow, follow]
    exact .nil
  | case2 stack loaded importer rule rest ih =>
    intro other place bytes located locatedOther held known placed short shortOther
    obtain ⟨own, others⟩ := List.forall_mem_cons.mp placed
    have first : Copies disk [.rule rule] [.rule (rule.inFile (some other))] :=
      ⟨.cons ⟨rfl, importer, other, place, bytes, own, rfl, located, locatedOther, held⟩ .nil,
        rfl, nofun⟩
    rw [List.map_cons, Statement.inFile, follow] at shortOther ⊢
    rw [follow] at short ⊢
    exact first.append (ih other place bytes located locatedOther held known others short.tail
      shortOther.tail)
  | case3 stack loaded importer text location rest =>
    rename_i waiting ih
    exact followsAlike_of_not_opens tree (fun _ opens => opens.1 waiting) ih
  | case4 stack loaded importer text location rest =>
    rename_i old ih
    exact followsAlike_of_not_opens tree (fun _ opens => opens.2.1 old) ih
  | case5 stack loaded importer text location rest =>
    rename_i outside new failure failed ih
    refine followsAlike_of_not_opens tree (fun content opens => ?_) ih
    rw [opens.2.2] at failed
    cases failed
  | case6 stack loaded importer text location rest =>
    rename_i outside new content read inner problems said _ ihInner _ ihRest
    obtain rfl : (Statement.ofText content (some (target importer text))).1 = inner := by rw [said]
    obtain rfl : (Statement.ofText content (some (target importer text))).2 = problems := by rw [said]
    exact followsAlike_of_opens tree ⟨outside, new, read⟩ ihInner ihRest

/-- Loading a file reads copies of its rules by any of its paths. -/
theorem copies_ofFile (tree : disk.IsTree) {path : Path} {content : String}
    (located : disk.locate path = .ok place) (locatedOther : disk.locate other = .ok place)
    (held : disk.node? place = some (.file bytes))
    (short : AreShort (ofFile (.onDisk disk) path content))
    (shortOther : AreShort (ofFile (.onDisk disk) other content)) :
    Copies disk (ofFile (.onDisk disk) path content) (ofFile (.onDisk disk) other content) := by
  have begun (path : Path) :
      ofFile (.onDisk disk) path content = block (.onDisk disk) [] [] path content := rfl
  have same : disk.identity other = disk.identity path := by
    rw [Disk.identity_eq located, Disk.identity_eq locatedOther]
  have known : ∀ identity ∈ [(Storage.onDisk disk).identity path] ++
      [(Storage.onDisk disk).identity path], Disk.IsOfPlace identity := by
    have own : Disk.IsOfPlace ((Storage.onDisk disk).identity path) :=
      ⟨place, Disk.identity_eq located⟩
    exact List.forall_mem_append.mpr
      ⟨List.forall_mem_singleton.mpr own, List.forall_mem_singleton.mpr own⟩
  rw [begun] at short shortOther ⊢
  have inner := shortOther.of_append_right
  rw [inside_eq same] at inner
  refine copies_block located same ?_
  rw [inside_eq same]
  exact followsAlike tree _ _ path _ other place bytes located locatedOther held known
    (fun statement member => Statement.file_of_mem_ofText member) short.of_append_right inner

end Loading

/-- A report of an import that is unreadable for the length of its path. -/
def Diagnostic.IsOfLongImport (d : Diagnostic) : Prop :=
  ∃ text location,
    d = (Problem.unreadableImport text ReadFailure.nameTooLong.text).diagnosedAt location

namespace Sheet

open Loading

variable {storage : Storage} {path other : Path}

theorem exists_ofFile_of_load {sheet : Sheet} {entries : List JournalEntry}
    (loaded : load storage path = .ok (sheet, entries)) :
    ∃ content, storage.read path = .ok content ∧
      sheet.rules = Loading.rules (ofFile storage path content) ∧
      ((∀ d, .diagnostic d ∈ entries → ¬ d.IsOfLongImport) →
        AreShort (ofFile storage path content)) := by
  unfold load at loaded
  split at loaded
  · cases loaded
  · rename_i content read
    cases loaded
    refine ⟨content, read, rfl, fun quiet text location member => ?_⟩
    refine quiet _ (List.mem_append_left _ (List.mem_filterMap.mpr ⟨_, member, rfl⟩)) ?_
    exact ⟨text, location, rfl⟩

/-- Loading a file by two of its paths gives copies of the same rules, as long as no import is too long
to be read under either of them. -/
theorem load_copies {disk : Disk} (tree : disk.IsTree) {place : Place}
    (located : disk.locate path = .ok place) (locatedOther : disk.locate other = .ok place)
    {one second : Sheet} {entries others : List JournalEntry}
    (loaded : load (.onDisk disk) path = .ok (one, entries))
    (loadedOther : load (.onDisk disk) other = .ok (second, others))
    (short : ∀ d, .diagnostic d ∈ entries → ¬ d.IsOfLongImport)
    (shortOther : ∀ d, .diagnostic d ∈ others → ¬ d.IsOfLongImport) :
    List.Forall₂ (Rule.IsCopyOn disk) one.rules second.rules := by
  obtain ⟨content, read, rules, quiet⟩ := exists_ofFile_of_load loaded
  obtain ⟨found, readOther, rulesOther, quietOther⟩ := exists_ofFile_of_load loadedOther
  have same : disk.read other = disk.read path := Disk.read_congr (locatedOther.trans located.symm)
  obtain rfl : found = content := Except.ok.inj (readOther.symm.trans (same.trans read))
  obtain ⟨own, bytes, there, held⟩ := Disk.exists_file_of_read read
  obtain rfl : place = own := Except.ok.inj (located.symm.trans there)
  rw [rules, rulesOther]
  exact (copies_ofFile tree located locatedOther held (quiet short) (quietOther shortOther)).rules

end Sheet

end PackageSheet
