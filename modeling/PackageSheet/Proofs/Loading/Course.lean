import PackageSheet.Sheet.Load

/-!
The course of loading. A derivation of `Course` tells in which order the statements of a file and
of everything that it imports are met, and which files are opened on the way: a file is entered at
the first import that can open it, and left when its last statement was met. No file is opened
twice (`Course.distinct`), and each one that is opened says all that it says by itself
(`Course.saidBy_opened`).
-/

namespace PackageSheet

def Statement.rule? : Statement → Option Rule
  | .rule found => some found
  | .importFile .. => none

namespace Loading

/-- The statements of a file by itself. -/
def statementsOf (storage : Storage) (path : Path) : List Statement :=
  match storage.read path with
  | .ok content => (Statement.ofText content (some path)).1
  | .error _ => []

/-- The problems of the text of a file by itself. -/
def problemsOf (storage : Storage) (path : Path) : List Diagnostic :=
  match storage.read path with
  | .ok content => (Statement.ofText content (some path)).2
  | .error _ => []

/-- Where loading stands: in a file, for which others wait, the innermost first, after it opened
some files. -/
structure Stage where
  file : Path
  awaiting : List Path
  opened : List Path

namespace Stage

/-- The files that are being imported, with the one that holds the next statement. -/
def stack (stage : Stage) : List Path :=
  stage.file :: stage.awaiting

def start (root : Path) : Stage :=
  ⟨root, [], [root]⟩

def enter (stage : Stage) (path : Path) : Stage :=
  ⟨path, stage.stack, stage.opened ++ [path]⟩

def past (stage : Stage) (files : List Path) : Stage :=
  { stage with opened := stage.opened ++ files }

@[simp] theorem past_nil (stage : Stage) : stage.past [] = stage := by
  simp [past]

@[simp] theorem past_past (stage : Stage) (files more : List Path) :
    (stage.past files).past more = stage.past (files ++ more) := by
  simp [past]

theorem opened_enter_append (stage : Stage) (path : Path) (below : List Path) :
    (stage.enter path).opened ++ below = stage.opened ++ path :: below := by
  simp [enter]

/-- The files that wait are open, and no file was opened twice. -/
structure Sound (storage : Storage) (stage : Stage) : Prop where
  stacked : ∀ path ∈ stage.stack, path ∈ stage.opened
  distinct : (stage.opened.map storage.identity).Nodup

theorem sound_start (storage : Storage) (root : Path) : (start root).Sound storage where
  stacked := fun _ member => member
  distinct := List.pairwise_singleton _ _

end Stage

/-- A statement that is met at a stage. -/
structure Moment extends Stage where
  statement : Statement

/-- A moment opens a file if its statement imports one that can be read and was not opened
before. -/
def Moment.Opens (storage : Storage) (moment : Moment) (path : Path) : Prop :=
  ∃ text location content, moment.statement = .importFile text location ∧
    path = target moment.file text ∧ storage.read path = .ok content ∧
    storage.identity path ∉ moment.opened.map storage.identity

/-- The course of loading through statements: the moments in the order in which they come, and
the files that are opened in turn. Where a moment opens a file, the course goes through all of
that file before the next statement. -/
inductive Course (storage : Storage) :
    Stage → List Statement → List Moment → List Path → Prop where
  | done {stage : Stage} : Course storage stage [] [] []
  | passed {stage : Stage} {statement : Statement} {rest : List Statement}
      {later : List Moment} {files : List Path}
      (stays : ∀ path, ¬ Moment.Opens storage ⟨stage, statement⟩ path)
      (after : Course storage stage rest later files) :
      Course storage stage (statement :: rest) (⟨stage, statement⟩ :: later) files
  | followed {stage : Stage} {statement : Statement} {rest : List Statement} {path : Path}
      {within later : List Moment} {below files : List Path}
      (opens : Moment.Opens storage ⟨stage, statement⟩ path)
      (inside : Course storage (stage.enter path) (statementsOf storage path) within below)
      (after : Course storage (stage.past (path :: below)) rest later files) :
      Course storage stage (statement :: rest) (⟨stage, statement⟩ :: (within ++ later))
        (path :: (below ++ files))

theorem Moment.Opens.new {storage : Storage} {moment : Moment} {path : Path}
    (opens : moment.Opens storage path) :
    storage.identity path ∉ moment.opened.map storage.identity := by
  obtain ⟨-, -, -, -, -, -, new⟩ := opens
  exact new

theorem Moment.Opens.readable {storage : Storage} {moment : Moment} {path : Path}
    (opens : moment.Opens storage path) : ∃ content, storage.read path = .ok content := by
  obtain ⟨-, -, content, -, -, read, -⟩ := opens
  exact ⟨content, read⟩

variable {storage : Storage} {stage : Stage} {statement : Statement} {path : Path}

theorem statementsOf_eq {content : String} (read : storage.read path = .ok content) :
    statementsOf storage path = (Statement.ofText content (some path)).1 := by
  rw [statementsOf, read]

theorem problemsOf_eq {content : String} (read : storage.read path = .ok content) :
    problemsOf storage path = (Statement.ofText content (some path)).2 := by
  rw [problemsOf, read]

/-- The statements of a file among some moments. -/
def saidBy (file : Path) (moments : List Moment) : List Statement :=
  (moments.filter fun moment => moment.file = file).map Moment.statement

@[simp] theorem saidBy_cons_self (stage : Stage) (statement : Statement) (moments : List Moment) :
    saidBy stage.file (⟨stage, statement⟩ :: moments) = statement :: saidBy stage.file moments := by
  simp [saidBy]

theorem saidBy_cons_of_ne {file : Path} {moment : Moment} (other : moment.file ≠ file)
    (moments : List Moment) : saidBy file (moment :: moments) = saidBy file moments := by
  simp [saidBy, other]

@[simp] theorem saidBy_append (file : Path) (moments others : List Moment) :
    saidBy file (moments ++ others) = saidBy file moments ++ saidBy file others := by
  simp [saidBy]

/-- A file that is not among those of some moments says nothing there. -/
theorem saidBy_eq_nil {file : Path} {moments : List Moment}
    (silent : ∀ moment ∈ moments, moment.file ≠ file) : saidBy file moments = [] := by
  rw [saidBy, List.filter_eq_nil_iff.mpr, List.map_nil]
  intro moment member
  simpa using silent moment member

namespace Stage.Sound

theorem enter (sound : stage.Sound storage) {path : Path}
    (new : storage.identity path ∉ stage.opened.map storage.identity) :
    (stage.enter path).Sound storage where
  stacked := by
    intro file member
    rcases List.mem_cons.mp member with rfl | outer
    · exact List.mem_append_right _ List.mem_cons_self
    · exact List.mem_append_left _ (sound.stacked file outer)
  distinct := by
    change ((stage.opened ++ [path]).map storage.identity).Nodup
    rw [List.map_append, List.nodup_append]
    refine ⟨sound.distinct, List.pairwise_singleton _ _, ?_⟩
    intro old known fresh last same
    rw [same, List.mem_singleton.mp last] at known
    exact new known

theorem past {files : List Path} (sound : stage.Sound storage)
    (distinct : ((stage.opened ++ files).map storage.identity).Nodup) :
    (stage.past files).Sound storage where
  stacked path member := List.mem_append_left _ (sound.stacked path member)
  distinct := distinct

theorem opened_of_stack (sound : stage.Sound storage) {identity : List Component}
    (member : identity ∈ stage.stack.map storage.identity) :
    identity ∈ stage.opened.map storage.identity := by
  obtain ⟨path, outer, rfl⟩ := List.mem_map.mp member
  exact List.mem_map_of_mem (sound.stacked path outer)

end Stage.Sound

namespace Course

variable {statements : List Statement} {moments : List Moment} {files : List Path}

/-- No file is opened twice on the way. -/
theorem distinct (course : Course storage stage statements moments files)
    (sound : stage.Sound storage) :
    ((stage.opened ++ files).map storage.identity).Nodup := by
  induction course with
  | done =>
    rw [List.append_nil]
    exact sound.distinct
  | passed stays after ih => exact ih sound
  | @followed stage statement rest path within later below files opens inside after ihIn ihAfter =>
    have inner := ihIn (sound.enter opens.new)
    rw [Stage.opened_enter_append] at inner
    have outer := ihAfter (sound.past inner)
    simpa [Stage.past] using outer

theorem readable (course : Course storage stage statements moments files) :
    ∀ path ∈ files, ∃ content, storage.read path = .ok content := by
  induction course with
  | done => exact List.forall_mem_nil _
  | passed stays after ih => exact ih
  | followed opens inside after ihIn ihAfter =>
    intro path member
    rcases List.mem_cons.mp member with rfl | member
    · exact opens.readable
    · rcases List.mem_append.mp member with early | late
      · exact ihIn path early
      · exact ihAfter path late

/-- Every moment belongs to the file where the course began or to one that was opened. -/
theorem file_mem (course : Course storage stage statements moments files) :
    ∀ moment ∈ moments, moment.file ∈ stage.file :: files := by
  induction course with
  | done => exact List.forall_mem_nil _
  | passed stays after ih => exact List.forall_mem_cons.mpr ⟨List.mem_cons_self, ih⟩
  | followed opens inside after ihIn ihAfter =>
    refine List.forall_mem_cons.mpr ⟨List.mem_cons_self, fun moment member => ?_⟩
    rcases List.mem_append.mp member with early | late
    · exact List.mem_cons_of_mem _ (List.mem_append_left _ (ihIn moment early))
    · rcases List.mem_cons.mp (ihAfter moment late) with same | below
      · exact same ▸ List.mem_cons_self
      · exact List.mem_cons_of_mem _ (List.mem_cons_of_mem _ (List.mem_append_right _ below))

theorem not_mem_of_opened (course : Course storage stage statements moments files)
    (sound : stage.Sound storage) {path : Path} (old : path ∈ stage.opened) : path ∉ files := by
  have distinct := course.distinct sound
  rw [List.map_append] at distinct
  intro new
  exact (List.nodup_append.mp distinct).2.2 _ (List.mem_map_of_mem old) _
    (List.mem_map_of_mem new) rfl

/-- A file that was opened before and is not the one where the course began is silent. -/
theorem saidBy_eq_nil_of_opened (course : Course storage stage statements moments files)
    (sound : stage.Sound storage) {path : Path} (old : path ∈ stage.opened)
    (other : path ≠ stage.file) : saidBy path moments = [] := by
  refine saidBy_eq_nil fun moment member same => ?_
  rcases List.mem_cons.mp (course.file_mem moment member) with here | new
  · exact other (same ▸ here)
  · exact course.not_mem_of_opened sound old (same ▸ new)

/-- Behind a file that was opened, with all that it imports, the stage is sound again. -/
theorem sound_past {path : Path}
    (inside : Course storage (stage.enter path) statements moments files)
    (sound : stage.Sound storage)
    (new : storage.identity path ∉ stage.opened.map storage.identity) :
    (stage.past (path :: files)).Sound storage := by
  apply sound.past
  rw [← Stage.opened_enter_append]
  exact inside.distinct (sound.enter new)

theorem sound_of_mem (course : Course storage stage statements moments files)
    (sound : stage.Sound storage) : ∀ moment ∈ moments, moment.toStage.Sound storage := by
  induction course with
  | done => exact List.forall_mem_nil _
  | passed stays after ih => exact List.forall_mem_cons.mpr ⟨sound, ih sound⟩
  | followed opens inside after ihIn ihAfter =>
    refine List.forall_mem_cons.mpr ⟨sound, List.forall_mem_append.mpr ⟨?_, ?_⟩⟩
    · exact ihIn (sound.enter opens.new)
    · exact ihAfter (inside.sound_past sound opens.new)

theorem saidBy_file (course : Course storage stage statements moments files)
    (sound : stage.Sound storage) : saidBy stage.file moments = statements := by
  induction course with
  | done => rfl
  | passed stays after ih => rw [saidBy_cons_self, ih sound]
  | @followed stage statement rest path within later below files opens inside after _ ihAfter =>
    have here : stage.file ∈ stage.opened := sound.stacked _ List.mem_cons_self
    have inner : saidBy stage.file within = [] := by
      apply inside.saidBy_eq_nil_of_opened (sound.enter opens.new)
      · exact List.mem_append_left _ here
      · rintro rfl
        exact opens.new (List.mem_map_of_mem here)
    have outer : saidBy stage.file later = rest := ihAfter (inside.sound_past sound opens.new)
    rw [saidBy_cons_self, saidBy_append, inner, outer, List.nil_append]

/-- The course meets all statements of each file that is opened, in order. -/
theorem saidBy_opened (course : Course storage stage statements moments files)
    (sound : stage.Sound storage) :
    ∀ path ∈ files, saidBy path moments = statementsOf storage path := by
  induction course with
  | done => exact List.forall_mem_nil _
  | @passed stage statement rest later files stays after ih =>
    intro path member
    have other : stage.file ≠ path := by
      rintro rfl
      exact after.not_mem_of_opened sound (sound.stacked _ List.mem_cons_self) member
    rw [saidBy_cons_of_ne other, ih sound path member]
  | @followed stage statement rest first within later below files opens inside after ihIn ihAfter =>
    intro path member
    have soundIn := sound.enter opens.new
    have soundAfter := inside.sound_past sound opens.new
    have other : stage.file ≠ path := by
      rintro rfl
      exact (Course.followed opens inside after).not_mem_of_opened sound
        (sound.stacked _ List.mem_cons_self) member
    rw [saidBy_cons_of_ne other, saidBy_append]
    by_cases early : path ∈ first :: below
    · have outer : saidBy path later = [] :=
        after.saidBy_eq_nil_of_opened soundAfter (List.mem_append_right _ early) other.symm
      rw [outer, List.append_nil]
      rcases List.mem_cons.mp early with rfl | deeper
      · exact inside.saidBy_file soundIn
      · exact ihIn soundIn path deeper
    · have inner : saidBy path within = [] :=
        saidBy_eq_nil fun moment known same => early (same ▸ inside.file_mem moment known)
      rw [inner, List.nil_append]
      rw [← List.cons_append, List.mem_append] at member
      exact ihAfter soundAfter path (member.resolve_left early)

end Course

end Loading

end PackageSheet
