import PackageSheet.Proofs.Loading.Work

/-!
How a sheet is put together from files. Each file that is opened gives all its rules, in order and
once; what an import adds, with everything that is imported in turn, stands in one piece between
the rules in front of the import and those behind it (`load_splices`).
-/

namespace PackageSheet

def Rule.isFrom (rule : Rule) (file : Path) : Bool :=
  rule.location.file = some file

namespace Loading

variable {storage : Storage} {stage : Stage} {statements : List Statement}
  {moments earlier here later : List Moment} {files : List Path} {path : Path}

/-- The rules of a file among some moments are those that it says there. -/
theorem filter_rulesAt
    (placed : ∀ moment ∈ moments, moment.statement.location.file = some moment.file)
    (path : Path) :
    (rulesAt moments).filter (·.isFrom path) = (saidBy path moments).filterMap Statement.rule? := by
  induction moments with
  | nil => rfl
  | cons moment moments ih =>
    obtain ⟨first, others⟩ := List.forall_mem_cons.mp placed
    obtain ⟨stage, statement⟩ := moment
    rw [rulesAt_cons, List.filter_append, ih others]
    cases statement with
    | importFile text location =>
      by_cases same : stage.file = path
      · subst same
        rw [saidBy_cons_self, List.filterMap_cons_none rfl]
        rfl
      · rw [saidBy_cons_of_ne same]
        rfl
    | rule found =>
      have own : found.location.file = some stage.file := first
      by_cases same : stage.file = path
      · subst same
        simp [Statement.rule?, Rule.isFrom, own]
      · rw [saidBy_cons_of_ne same]
        simp [Statement.rule?, Rule.isFrom, own, same]

/-- A file that says as much in the middle of some moments as in all of them is silent around the
middle. -/
theorem saidBy_around (same : saidBy path (earlier ++ here ++ later) = saidBy path here) :
    saidBy path earlier = [] ∧ saidBy path later = [] := by
  have length := congrArg List.length same
  simp only [saidBy_append, List.length_append] at length
  constructor
  · apply List.eq_nil_of_length_eq_zero
    omega
  · apply List.eq_nil_of_length_eq_zero
    omega

namespace Course

private theorem split {ahead behind : List Statement}
    (course : Course storage stage (ahead ++ behind) moments files) :
    ∃ first second early late, moments = first ++ second ∧ files = early ++ late ∧
      Course storage stage ahead first early ∧
      Course storage (stage.past early) behind second late := by
  induction ahead generalizing stage moments files with
  | nil =>
    refine ⟨[], moments, [], files, rfl, rfl, .done, ?_⟩
    rw [Stage.past_nil]
    exact course
  | cons statement ahead ih =>
    cases course with
    | passed stays after =>
      obtain ⟨first, second, early, late, rfl, rfl, before, rest⟩ := ih after
      exact ⟨_ :: first, second, early, late, rfl, rfl, .passed stays before, rest⟩
    | @followed _ _ _ path within _ below _ opens inside after =>
      obtain ⟨first, second, early, late, rfl, rfl, before, rest⟩ := ih after
      refine ⟨_ :: (within ++ first), second, path :: (below ++ early), late, ?_, ?_,
        .followed opens inside before, ?_⟩
      · simp
      · simp
      · rw [Stage.past_past] at rest
        exact rest

/-- The part of a course that goes through one of the files that are opened. -/
structure Passage (storage : Storage) (stage : Stage) (moments : List Moment)
    (files : List Path) (path : Path) where
  within : Stage
  earlier : List Moment
  inner : List Moment
  later : List Moment
  below : List Path
  newer : List Path
  file : within.file = path
  sound : within.Sound storage
  moments_eq : moments = earlier ++ inner ++ later
  opened_eq : stage.opened ++ files = within.opened ++ below ++ newer
  course : Course storage within (statementsOf storage path) inner below

private theorem passage (course : Course storage stage statements moments files)
    (sound : stage.Sound storage) :
    ∀ path ∈ files, Nonempty (Passage storage stage moments files path) := by
  induction course with
  | done => exact List.forall_mem_nil _
  | @passed stage statement rest later files stays after ih =>
    intro path member
    obtain ⟨p⟩ := ih sound path member
    exact ⟨{ p with
      earlier := ⟨stage, statement⟩ :: p.earlier
      moments_eq := by simp [p.moments_eq] }⟩
  | @followed stage statement rest first within later below files opens inside after ihIn ihAfter =>
    intro path member
    have soundIn := sound.enter opens.new
    have soundAfter := inside.sound_past sound opens.new
    rcases List.mem_cons.mp member with rfl | member
    · exact ⟨{
        within := stage.enter path
        earlier := [⟨stage, statement⟩]
        inner := within
        later := later
        below := below
        newer := files
        file := rfl
        sound := soundIn
        moments_eq := by simp
        opened_eq := by simp [Stage.enter]
        course := inside }⟩
    · rcases List.mem_append.mp member with early | late
      · obtain ⟨p⟩ := ihIn soundIn path early
        exact ⟨{ p with
          earlier := ⟨stage, statement⟩ :: p.earlier
          later := p.later ++ later
          newer := p.newer ++ files
          moments_eq := by simp [p.moments_eq]
          opened_eq := by
            rw [← List.append_assoc, ← p.opened_eq]
            simp [Stage.enter] }⟩
      · obtain ⟨p⟩ := ihAfter soundAfter path late
        exact ⟨{ p with
          earlier := ⟨stage, statement⟩ :: (within ++ p.earlier)
          moments_eq := by simp [p.moments_eq]
          opened_eq := by
            rw [← p.opened_eq]
            simp [Stage.past] }⟩

end Course

/-- Where a course comes to a statement of a file: the moments in front of it, those that belong
to it, and those behind it; and the files that following it opens. -/
structure Meeting (storage : Storage) (sources : List Path) (moments : List Moment) (file : Path)
    (before : List Statement) (statement : Statement) (after : List Statement) where
  stage : Stage
  earlier : List Moment
  here : List Moment
  later : List Moment
  followed : List Path
  newer : List Path
  /-- The statement stands in the file. -/
  file_eq : stage.file = file
  sound : stage.Sound storage
  moments_eq : moments = earlier ++ here ++ later
  /-- Following the statement opens these files and leads through everything in them. -/
  course : Course storage stage [statement] here followed
  /-- The files that are opened stand together, behind those that were opened before. -/
  sources_eq : sources = stage.opened ++ followed ++ newer
  said_earlier : saidBy file earlier = before
  said_later : saidBy file later = after

/-- What an import adds to a sheet, with everything that is imported in turn, stands in one
piece. -/
structure Splice (storage : Storage) (sheet : Sheet) (moments : List Moment) (importer : Path)
    (before : List Statement) (directive : Statement) (after : List Statement) extends
    Meeting storage sheet.sources moments importer before directive after where
  rules_eq : sheet.rules = rulesAt earlier ++ rulesAt here ++ rulesAt later
  /-- The piece has rules of the files that are followed, and no others. -/
  inside : ∀ rule ∈ rulesAt here, ∃ path ∈ followed, rule.isFrom path
  /-- All rules of these files are in the piece. -/
  outside : ∀ path ∈ followed, ∀ rule ∈ rulesAt earlier ++ rulesAt later, ¬ rule.isFrom path
  /-- The rules in front of the directive are in front of the piece. -/
  ahead_eq : (rulesAt earlier).filter (·.isFrom importer) = before.filterMap Statement.rule?
  /-- The rules behind the directive are behind the piece. -/
  behind_eq : (rulesAt later).filter (·.isFrom importer) = after.filterMap Statement.rule?

namespace Loaded

variable {root : Path} {sheet : Sheet} {entries : List JournalEntry} {file : Path}
  {before after : List Statement} {statement : Statement}

theorem isFrom (loaded : Loaded storage root sheet entries moments files) {moment : Moment}
    {rule : Rule} (member : moment ∈ moments) (stated : moment.statement = .rule rule) :
    rule.isFrom moment.file := by
  have placed := loaded.placed moment member
  rw [stated] at placed
  exact decide_eq_true placed

private theorem passage (loaded : Loaded storage root sheet entries moments files) :
    ∀ source ∈ sheet.sources,
      Nonempty (Course.Passage storage (.start root) moments files source) := by
  intro source member
  rw [loaded.sources] at member
  rcases List.mem_cons.mp member with rfl | opened
  · exact ⟨{
      within := .start source
      earlier := []
      inner := moments
      later := []
      below := files
      newer := []
      file := rfl
      sound := Stage.sound_start storage source
      moments_eq := by simp
      opened_eq := by simp
      course := loaded.course }⟩
  · exact loaded.course.passage (Stage.sound_start storage root) source opened

private theorem meeting (loaded : Loaded storage root sheet entries moments files)
    (member : file ∈ sheet.sources)
    (divided : statementsOf storage file = before ++ statement :: after) :
    Nonempty (Meeting storage sheet.sources moments file before statement after) := by
  obtain ⟨within, earlier, inner, later, below, newer, rfl, sound, around, opened, course⟩ :=
    loaded.passage file member
  have own := course.saidBy_file sound
  -- Around the passage through the file nothing else of it is said.
  obtain ⟨quietEarlier, quietLater⟩ :
      saidBy within.file earlier = [] ∧ saidBy within.file later = [] := by
    apply saidBy_around
    rw [← around, own, loaded.saidBy_source _ member]
  rw [divided] at course
  obtain ⟨first, second, early, late, rfl, rfl, courseBefore, rest⟩ := course.split
  obtain ⟨here, last, followed, rear, rfl, rfl, courseHere, courseAfter⟩ :=
    @Course.split storage _ _ _ [statement] after rest
  have soundHere := sound.past (courseBefore.distinct sound)
  have soundAfter := soundHere.past (courseHere.distinct soundHere)
  have saidFirst : saidBy within.file first = before := courseBefore.saidBy_file sound
  have saidLast : saidBy within.file last = after := courseAfter.saidBy_file soundAfter
  exact ⟨{
    stage := within.past early
    earlier := earlier ++ first
    here := here
    later := last ++ later
    followed := followed
    newer := rear ++ newer
    file_eq := rfl
    sound := soundHere
    moments_eq := by simp [around]
    course := courseHere
    sources_eq := by
      have all : sheet.sources = (Stage.start root).opened ++ files := loaded.sources
      simp [all, opened, Stage.past]
    said_earlier := by rw [saidBy_append, quietEarlier, saidFirst, List.nil_append]
    said_later := by rw [saidBy_append, saidLast, quietLater, List.append_nil] }⟩

end Loaded

theorem mem_rulesAt {rule : Rule} :
    rule ∈ rulesAt moments ↔ ∃ moment ∈ moments, moment.statement = .rule rule := by
  rw [rulesAt, List.mem_filterMap]
  refine exists_congr fun moment => and_congr_right fun _ => ?_
  cases moment.statement with
  | rule found => simp [Statement.rule?]
  | importFile text location => simp [Statement.rule?]

namespace Meeting

variable {root : Path} {sheet : Sheet} {entries : List JournalEntry} {file : Path}
  {before after : List Statement} {statement : Statement}

private theorem quiet (loaded : Loaded storage root sheet entries moments files)
    (m : Meeting storage sheet.sources moments file before statement after) :
    ∀ path ∈ m.followed, saidBy path m.earlier = [] ∧ saidBy path m.later = [] := by
  intro path new
  have source : path ∈ sheet.sources := by
    rw [m.sources_eq]
    exact List.mem_append_left _ (List.mem_append_right _ new)
  apply saidBy_around
  rw [← m.moments_eq, loaded.saidBy_source path source, m.course.saidBy_opened m.sound path new]

private theorem inside (loaded : Loaded storage root sheet entries moments files)
    (ruleless : statement.rule? = none)
    (m : Meeting storage sheet.sources moments file before statement after) :
    ∀ rule ∈ rulesAt m.here, ∃ path ∈ m.followed, rule.isFrom path := by
  intro rule member
  obtain ⟨moment, known, stated⟩ := mem_rulesAt.mp member
  have whole : moment ∈ moments := by
    rw [m.moments_eq]
    exact List.mem_append_left _ (List.mem_append_right _ known)
  rcases List.mem_cons.mp (m.course.file_mem moment known) with own | new
  · have said : moment.statement ∈ saidBy m.stage.file m.here :=
      List.mem_map_of_mem (List.mem_filter.mpr ⟨known, by simpa using own⟩)
    rw [m.course.saidBy_file m.sound, List.mem_singleton, stated] at said
    rw [← said] at ruleless
    cases ruleless
  · exact ⟨moment.file, new, loaded.isFrom whole stated⟩

end Meeting

/-- What an import adds stands in one piece. -/
theorem Loaded.splice {root : Path} {sheet : Sheet} {entries : List JournalEntry}
    {importer : Path} {before after : List Statement} {directive : Statement}
    (loaded : Loaded storage root sheet entries moments files)
    (ruleless : directive.rule? = none) (member : importer ∈ sheet.sources)
    (divided : statementsOf storage importer = before ++ directive :: after) :
    Nonempty (Splice storage sheet moments importer before directive after) := by
  obtain ⟨m⟩ := loaded.meeting member divided
  have placed := loaded.placed
  rw [m.moments_eq, List.forall_mem_append, List.forall_mem_append] at placed
  obtain ⟨⟨placedEarlier, -⟩, placedLater⟩ := placed
  refine ⟨{
    toMeeting := m
    rules_eq := by rw [loaded.rules, ← rulesAt_append, ← rulesAt_append, ← m.moments_eq]
    inside := m.inside loaded ruleless
    outside := ?_
    ahead_eq := by rw [filter_rulesAt placedEarlier, m.said_earlier]
    behind_eq := by rw [filter_rulesAt placedLater, m.said_later] }⟩
  intro path new rule ruled own
  obtain ⟨quietEarlier, quietLater⟩ := m.quiet loaded path new
  have none : (rulesAt m.earlier ++ rulesAt m.later).filter (·.isFrom path) = [] := by
    rw [List.filter_append, filter_rulesAt placedEarlier, filter_rulesAt placedLater,
      quietEarlier, quietLater]
    rfl
  exact List.filter_eq_nil_iff.mp none rule ruled own

/-- A file that can be read is loaded with everything that it imports: the files, no two of them
the same, come in the order in which a course opens them; each of them gives exactly the rules
that its text has by itself, in their order; and what an import adds stands in one piece between
the rules in front of the import and those behind it. -/
theorem load_splices {storage : Storage} {root : Path} {content : String}
    (readable : storage.read root = .ok content) :
    ∃ sheet entries moments files,
      Sheet.load storage root = .ok (sheet, entries) ∧
      Course storage (.start root) (statementsOf storage root) moments files ∧
      sheet.sources = root :: files ∧
      (sheet.sources.map storage.identity).Nodup ∧
      (∀ source ∈ sheet.sources, ∃ text, storage.read source = .ok text ∧
        sheet.rules.filter (·.isFrom source) =
          (Statement.ofText text (some source)).1.filterMap Statement.rule?) ∧
      (∀ rule ∈ sheet.rules, ∃ source ∈ sheet.sources, rule.isFrom source) ∧
      ∀ importer ∈ sheet.sources, ∀ before text location after,
        statementsOf storage importer = before ++ .importFile text location :: after →
        Nonempty (Splice storage sheet moments importer before (.importFile text location)
          after) := by
  obtain ⟨sheet, entries, moments, files, load, loaded⟩ := exists_loaded readable
  have sound := Stage.sound_start storage root
  refine ⟨sheet, entries, moments, files, load, loaded.course, loaded.sources, ?_, ?_, ?_, ?_⟩
  · rw [loaded.sources]
    exact loaded.course.distinct sound
  · intro source member
    obtain ⟨text, read⟩ : ∃ text, storage.read source = .ok text := by
      rw [loaded.sources] at member
      rcases List.mem_cons.mp member with rfl | opened
      · exact ⟨content, readable⟩
      · exact loaded.course.readable source opened
    refine ⟨text, read, ?_⟩
    rw [loaded.rules, filter_rulesAt loaded.placed, loaded.saidBy_source source member,
      statementsOf_eq read]
  · intro rule member
    rw [loaded.rules] at member
    obtain ⟨moment, known, stated⟩ := mem_rulesAt.mp member
    refine ⟨moment.file, ?_, loaded.isFrom known stated⟩
    rw [loaded.sources]
    exact loaded.course.file_mem moment known
  · intro importer member before text location after divided
    exact loaded.splice rfl member divided

/-- Two files that import each other. -/
def twoFiles : Storage :=
  .inMemory { files := [(⟨"/a"⟩, "x{}@import b;z{}"), (⟨"/b"⟩, "@import a;y{}")] }

theorem load_splices_twoFiles :
    twoFiles.read ⟨"/a"⟩ = .ok "x{}@import b;z{}" ∧
      ∃ sheet entries, Sheet.load twoFiles ⟨"/a"⟩ = .ok (sheet, entries) ∧
        (sheet.sources.map Path.components).Nodup ∧
        sheet.rules.filter (·.isFrom ⟨"/a"⟩) =
          (Statement.ofText "x{}@import b;z{}" (some ⟨"/a"⟩)).1.filterMap Statement.rule? := by
  have readable : twoFiles.read ⟨"/a"⟩ = .ok "x{}@import b;z{}" := rfl
  obtain ⟨sheet, entries, moments, files, load, -, sources, distinct, own, -⟩ :=
    load_splices readable
  refine ⟨readable, sheet, entries, load, distinct, ?_⟩
  have first : ⟨"/a"⟩ ∈ sheet.sources := by
    rw [sources]
    exact List.mem_cons_self
  obtain ⟨text, read, rules⟩ := own ⟨"/a"⟩ first
  cases readable.symm.trans read
  exact rules

end Loading

end PackageSheet
