import PackageSheet.Proofs.Loading.Course
import PackageSheet.Proofs.Sheet.Origin

namespace PackageSheet

def JournalEntry.diagnostic? : JournalEntry → Option Diagnostic
  | .diagnostic d => some d
  | .note _ => none

namespace Loading

/-- What is done at a moment, the work inside a file that it opens apart. -/
def Moment.events (storage : Storage) (moment : Moment) : List LoadEvent :=
  match moment.statement with
  | .rule rule => [.rule rule]
  | .importFile text location =>
    let path := target moment.file text
    if (moment.stack.map storage.identity).contains (storage.identity path) then
      [.circular text location]
    else if (moment.opened.map storage.identity).contains (storage.identity path) then
      [.repeated path]
    else
      match storage.read path with
      | .error failure => [.unreadable text location failure]
      | .ok _ => .opened path :: (problemsOf storage path).map .problem

variable {storage : Storage} {stage : Stage} {statement : Statement} {path : Path}

section events

variable {moment : Moment} {text : String} {location : Location}

private theorem Moment.not_opens_of_old (imports : moment.statement = .importFile text location)
    (old : storage.identity (target moment.file text) ∈ moment.opened.map storage.identity)
    (path : Path) : ¬ moment.Opens storage path := by
  rintro ⟨_, _, _, same, rfl, -, new⟩
  cases imports.symm.trans same
  exact new old

private theorem Moment.not_opens_of_failed {failure : ReadFailure}
    (imports : moment.statement = .importFile text location)
    (failed : storage.read (target moment.file text) = .error failure) (path : Path) :
    ¬ moment.Opens storage path := by
  rintro ⟨_, _, _, same, rfl, read, -⟩
  cases imports.symm.trans same
  cases failed.symm.trans read

theorem Moment.events_circular (imports : moment.statement = .importFile text location)
    (waits : storage.identity (target moment.file text) ∈ moment.stack.map storage.identity) :
    moment.events storage = [.circular text location] := by
  rw [events, imports]
  simp only [List.contains_iff_mem]
  rw [if_pos waits]

theorem Moment.events_repeated (imports : moment.statement = .importFile text location)
    (outside : storage.identity (target moment.file text) ∉ moment.stack.map storage.identity)
    (old : storage.identity (target moment.file text) ∈ moment.opened.map storage.identity) :
    moment.events storage = [.repeated (target moment.file text)] := by
  rw [events, imports]
  simp only [List.contains_iff_mem]
  rw [if_neg outside, if_pos old]

theorem Moment.events_unreadable {failure : ReadFailure}
    (imports : moment.statement = .importFile text location)
    (outside : storage.identity (target moment.file text) ∉ moment.stack.map storage.identity)
    (new : storage.identity (target moment.file text) ∉ moment.opened.map storage.identity)
    (failed : storage.read (target moment.file text) = .error failure) :
    moment.events storage = [.unreadable text location failure] := by
  rw [events, imports]
  simp only [List.contains_iff_mem]
  rw [if_neg outside, if_neg new, failed]

/-- A moment that opens a file tells this and the problems of the file. -/
theorem Moment.events_of_opens (sound : moment.toStage.Sound storage)
    (opens : moment.Opens storage path) :
    moment.events storage = .opened path :: (problemsOf storage path).map .problem := by
  obtain ⟨text, location, content, imports, rfl, read, new⟩ := opens
  rw [events, imports]
  simp only [List.contains_iff_mem]
  rw [if_neg (mt sound.opened_of_stack new), if_neg new, read]

end events

/-- What the work knows at a stage: the identities of the files on the stack, in their order, and
those of the files that were opened. -/
structure Stage.Tracked (storage : Storage) (stack loaded : List (List Component))
    (importer : Path) (stage : Stage) : Prop extends stage.Sound storage where
  file : stage.file = importer
  stack : stage.stack.map storage.identity = stack
  loaded : ∀ identity, identity ∈ loaded ↔ identity ∈ stage.opened.map storage.identity

namespace Stage.Tracked

variable {stack loaded : List (List Component)} {importer : Path}

private theorem enter (tracked : stage.Tracked storage stack loaded importer)
    (new : storage.identity path ∉ loaded) :
    (stage.enter path).Tracked storage (storage.identity path :: stack)
      (storage.identity path :: loaded) path where
  toSound := tracked.toSound.enter (mt (tracked.loaded _).mpr new)
  file := rfl
  stack := congrArg (_ :: ·) tracked.stack
  loaded := by
    intro identity
    simp [Stage.enter, tracked.loaded, or_comm]

private theorem past (tracked : stage.Tracked storage stack loaded importer) {files : List Path}
    (distinct : ((stage.opened ++ files).map storage.identity).Nodup) :
    (stage.past files).Tracked storage stack (loaded ++ files.map storage.identity)
      importer where
  toSound := tracked.toSound.past distinct
  file := tracked.file
  stack := tracked.stack
  loaded := by
    intro identity
    simp [Stage.past, tracked.loaded]

end Stage.Tracked

private theorem Course.pass {rest : List Statement} {events : List LoadEvent} {event : LoadEvent}
    (stays : ∀ path, ¬ Moment.Opens storage ⟨stage, statement⟩ path)
    (single : Moment.events storage ⟨stage, statement⟩ = [event])
    (opensNone : event.opened? = none)
    (course : ∃ moments, Course storage stage rest moments (events.filterMap LoadEvent.opened?) ∧
      events = moments.flatMap (Moment.events storage)) :
    ∃ moments, Course storage stage (statement :: rest) moments
        ((event :: events).filterMap LoadEvent.opened?) ∧
      event :: events = moments.flatMap (Moment.events storage) := by
  obtain ⟨moments, course, told⟩ := course
  refine ⟨⟨stage, statement⟩ :: moments, ?_, ?_⟩
  · rw [List.filterMap_cons_none opensNone]
    exact .passed stays course
  · rw [List.flatMap_cons, single, ← told]
    rfl

private theorem Course.enter {rest : List Statement} {below files : List Path}
    {inner events : List LoadEvent} (sound : stage.Sound storage)
    (opens : Moment.Opens storage ⟨stage, statement⟩ path)
    (inside : ∃ within, Course storage (stage.enter path) (statementsOf storage path) within
      below ∧ inner = within.flatMap (Moment.events storage))
    (after : ∃ later, Course storage (stage.past (path :: below)) rest later files ∧
      events = later.flatMap (Moment.events storage)) :
    ∃ moments, Course storage stage (statement :: rest) moments (path :: (below ++ files)) ∧
      .opened path :: (problemsOf storage path).map .problem ++ inner ++ events =
        moments.flatMap (Moment.events storage) := by
  obtain ⟨within, inside, toldInside⟩ := inside
  obtain ⟨later, after, toldAfter⟩ := after
  refine ⟨⟨stage, statement⟩ :: (within ++ later), .followed opens inside after, ?_⟩
  rw [List.flatMap_cons, List.flatMap_append, Moment.events_of_opens sound opens, ← toldInside,
    ← toldAfter, List.append_assoc]

/-- The work of loading is a course, told moment by moment. -/
theorem exists_course (storage : Storage) (stack loaded : List (List Component)) (importer : Path)
    (statements : List Statement) :
    ∀ stage : Stage, stage.Tracked storage stack loaded importer →
      ∃ moments, Course storage stage statements moments
          ((follow storage stack loaded importer statements).filterMap LoadEvent.opened?) ∧
        follow storage stack loaded importer statements =
          moments.flatMap (Moment.events storage) := by
  fun_induction follow storage stack loaded importer statements with
  | case1 => exact fun stage tracked => ⟨[], .done, rfl⟩
  | case2 stack loaded importer rule rest ih =>
    intro stage tracked
    refine Course.pass ?_ rfl rfl (ih stage tracked)
    rintro path ⟨text, location, content, wrong, -⟩
    cases wrong
  | case3 stack loaded importer text location rest path waits ih =>
    intro stage tracked
    have waits : storage.identity path ∈ stage.stack.map storage.identity :=
      tracked.stack ▸ waits
    obtain rfl := tracked.file
    exact Course.pass (Moment.not_opens_of_old rfl (tracked.opened_of_stack waits))
      (Moment.events_circular rfl waits) rfl (ih stage tracked)
  | case4 stack loaded importer text location rest path outside old ih =>
    intro stage tracked
    have outside : storage.identity path ∉ stage.stack.map storage.identity :=
      tracked.stack ▸ outside
    have old := (tracked.loaded _).mp old
    obtain rfl := tracked.file
    exact Course.pass (Moment.not_opens_of_old rfl old) (Moment.events_repeated rfl outside old) rfl
      (ih stage tracked)
  | case5 stack loaded importer text location rest path outside new failure read ih =>
    intro stage tracked
    have outside : storage.identity path ∉ stage.stack.map storage.identity :=
      tracked.stack ▸ outside
    have new := mt (tracked.loaded _).mpr new
    obtain rfl := tracked.file
    exact Course.pass (Moment.not_opens_of_failed rfl read)
      (Moment.events_unreadable rfl outside new read) rfl (ih stage tracked)
  | case6 stack loaded importer text location rest path outside new content read inner problems
      parsed block ihIn _ ihAfter =>
    intro stage tracked
    have opens : Moment.Opens storage ⟨stage, .importFile text location⟩ path :=
      ⟨text, location, content, rfl, by rw [tracked.file], read, mt (tracked.loaded _).mpr new⟩
    have statements : statementsOf storage path = inner := by
      rw [statementsOf_eq read, parsed]
    have reports : problemsOf storage path = problems := by
      rw [problemsOf_eq read, parsed]
    have trackedIn := tracked.enter new
    let below := (follow storage (storage.identity path :: stack)
      (storage.identity path :: loaded) path inner).filterMap LoadEvent.opened?
    have inside : ∃ within, Course storage (stage.enter path) (statementsOf storage path) within
        below ∧ follow storage (storage.identity path :: stack) (storage.identity path :: loaded)
          path inner = within.flatMap (Moment.events storage) := by
      rw [statements]
      exact ihIn (stage.enter path) trackedIn
    have files : block.filterMap LoadEvent.opened? = path :: below := by
      simp [block, below, LoadEvent.opened?]
    -- What the block opened is known behind it.
    have trackedAfter : (stage.past (path :: below)).Tracked storage stack
        (loaded ++ opened storage block) importer := by
      obtain ⟨within, course, -⟩ := inside
      rw [opened, files]
      apply tracked.past
      rw [← Stage.opened_enter_append]
      exact course.distinct trackedIn.toSound
    have whole := Course.enter tracked.toSound opens inside (ihAfter _ trackedAfter)
    rw [reports] at whole
    rw [List.filterMap_append, files]
    exact whole

def rulesAt (moments : List Moment) : List Rule :=
  moments.filterMap fun moment => moment.statement.rule?

def reportsOf (events : List LoadEvent) : List Diagnostic :=
  (events.filterMap LoadEvent.entry?).filterMap JournalEntry.diagnostic?

def Moment.reports (storage : Storage) (moment : Moment) : List Diagnostic :=
  reportsOf (moment.events storage)

theorem reportsOf_append (events others : List LoadEvent) :
    reportsOf (events ++ others) = reportsOf events ++ reportsOf others := by
  simp [reportsOf]

theorem reportsOf_problems (problems : List Diagnostic) :
    reportsOf (problems.map .problem) = problems := by
  induction problems with
  | nil => rfl
  | cons problem problems ih => exact congrArg (problem :: ·) ih

private theorem reportsOf_flatMap (moments : List Moment) :
    reportsOf (moments.flatMap (Moment.events storage)) =
      moments.flatMap (Moment.reports storage) := by
  induction moments with
  | nil => rfl
  | cons moment moments ih =>
    rw [List.flatMap_cons, reportsOf_append, ih]
    rfl

theorem rulesAt_cons (moment : Moment) (moments : List Moment) :
    rulesAt (moment :: moments) = moment.statement.rule?.toList ++ rulesAt moments := by
  cases found : moment.statement.rule? <;> simp [rulesAt, found]

theorem rulesAt_append (moments others : List Moment) :
    rulesAt (moments ++ others) = rulesAt moments ++ rulesAt others :=
  List.filterMap_append

private theorem Moment.rules_events (storage : Storage) (moment : Moment) :
    (moment.events storage).filterMap LoadEvent.rule? = moment.statement.rule?.toList := by
  unfold events
  cases moment.statement with
  | rule found => rfl
  | importFile text location =>
    dsimp only
    split
    · rfl
    split
    · rfl
    split
    · rfl
    · simp [LoadEvent.rule?, Statement.rule?]

private theorem rules_flatMap (moments : List Moment) :
    (moments.flatMap (Moment.events storage)).filterMap LoadEvent.rule? = rulesAt moments := by
  induction moments with
  | nil => rfl
  | cons moment moments ih =>
    rw [List.flatMap_cons, List.filterMap_append, moment.rules_events, ih, rulesAt_cons]

theorem file_of_mem_statementsOf (member : statement ∈ statementsOf storage path) :
    statement.location.file = some path := by
  unfold statementsOf at member
  split at member
  · exact Statement.file_of_mem_ofText member
  · cases member

private theorem Course.placed {statements : List Statement} {moments : List Moment} {files : List Path}
    (course : Course storage stage statements moments files)
    (here : ∀ statement ∈ statements, statement.location.file = some stage.file) :
    ∀ moment ∈ moments, moment.statement.location.file = some moment.file := by
  induction course with
  | done => exact List.forall_mem_nil _
  | passed stays after ih =>
    obtain ⟨first, others⟩ := List.forall_mem_cons.mp here
    exact List.forall_mem_cons.mpr ⟨first, ih others⟩
  | followed opens inside after ihIn ihAfter =>
    obtain ⟨first, others⟩ := List.forall_mem_cons.mp here
    refine List.forall_mem_cons.mpr ⟨first, fun moment member => ?_⟩
    rcases List.mem_append.mp member with early | late
    · exact ihIn (fun statement => file_of_mem_statementsOf) moment early
    · exact ihAfter others moment late

/-- What loading comes to: a course through the file that is asked for, from which the sheet and
the reports are read off. -/
structure Loaded (storage : Storage) (root : Path) (sheet : Sheet) (entries : List JournalEntry)
    (moments : List Moment) (files : List Path) : Prop where
  course : Course storage (.start root) (statementsOf storage root) moments files
  sources : sheet.sources = root :: files
  rules : sheet.rules = rulesAt moments
  reports : entries.filterMap JournalEntry.diagnostic? =
    problemsOf storage root ++ moments.flatMap (Moment.reports storage)

/-- Whenever a file can be read, loading it comes to an end with a sheet. -/
theorem exists_loaded {root : Path} {content : String}
    (readable : storage.read root = .ok content) :
    ∃ sheet entries moments files, Sheet.load storage root = .ok (sheet, entries) ∧
      Loaded storage root sheet entries moments files := by
  have tracked : (Stage.start root).Tracked storage [storage.identity root]
      [storage.identity root] root :=
    ⟨Stage.sound_start storage root, rfl, rfl, fun _ => Iff.rfl⟩
  obtain ⟨moments, course, told⟩ := exists_course storage _ _ root (statementsOf storage root) _
    tracked
  let work := LoadEvent.opened root :: ((problemsOf storage root).map .problem ++
    moments.flatMap (Moment.events storage))
  have whole : ofFile storage root content = work := by
    simp only [work]
    rw [← told, statementsOf_eq readable, problemsOf_eq readable]
    rfl
  refine ⟨⟨work.filterMap LoadEvent.rule?, work.filterMap LoadEvent.opened?⟩,
    work.filterMap LoadEvent.entry? ++ [.note s!"loaded {root.text}"], moments, _, ?_, course,
    ?_, ?_, ?_⟩
  · rw [Sheet.load, readable, ← whole]
  · simp [work, LoadEvent.opened?, told]
  · have idle : ((problemsOf storage root).map LoadEvent.problem).filterMap LoadEvent.rule? =
        [] := by
      simp [LoadEvent.rule?]
    have first : work.filterMap LoadEvent.rule? = [] ++ rulesAt moments := by
      rw [← idle, ← rules_flatMap, ← List.filterMap_append]
      rfl
    exact first
  · rw [List.filterMap_append]
    change reportsOf (_ ++ _) ++ [] = _
    rw [reportsOf_append, reportsOf_problems, reportsOf_flatMap, List.append_nil]

namespace Loaded

variable {root : Path} {sheet : Sheet} {entries : List JournalEntry} {moments : List Moment}
  {files : List Path}

/-- Every file of the sheet says among the moments what it says by itself. -/
theorem saidBy_source (loaded : Loaded storage root sheet entries moments files) :
    ∀ source ∈ sheet.sources, saidBy source moments = statementsOf storage source := by
  intro source member
  rw [loaded.sources] at member
  rcases List.mem_cons.mp member with rfl | opened
  · exact loaded.course.saidBy_file (Stage.sound_start storage source)
  · exact loaded.course.saidBy_opened (Stage.sound_start storage root) source opened

/-- At every moment the statement lies in the file of that moment. -/
theorem placed (loaded : Loaded storage root sheet entries moments files) :
    ∀ moment ∈ moments, moment.statement.location.file = some moment.file :=
  loaded.course.placed fun _ => file_of_mem_statementsOf

end Loaded

end Loading

end PackageSheet
