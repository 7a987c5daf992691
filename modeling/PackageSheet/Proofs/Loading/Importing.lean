import PackageSheet.Proofs.Loading.Work

/-!
What becomes of imports. The files on the stack and those that were opened decide which of four
things happens at an import (`Moment.Decides`), and each of them has its own report
(`Moment.Tells`). Loading a file meets every statement of every file that it opens, and nothing
else is reported about imports (`load_accounts`).
-/

namespace PackageSheet.Loading

/-- What can happen at an import. -/
inductive ImportOutcome where
  | circular
  | repeated
  | opened
  | unreadable
deriving DecidableEq

/-- When something happens at a moment that imports the file of a text. -/
def Moment.Decides (storage : Storage) (moment : Moment) (text : String) :
    ImportOutcome → Prop
  | .circular =>
    storage.identity (target moment.file text) ∈ moment.stack.map storage.identity
  | .repeated =>
    storage.identity (target moment.file text) ∉ moment.stack.map storage.identity ∧
      storage.identity (target moment.file text) ∈ moment.opened.map storage.identity
  | .opened => moment.Opens storage (target moment.file text)
  | .unreadable =>
    storage.identity (target moment.file text) ∉ moment.opened.map storage.identity ∧
      ∃ failure, storage.read (target moment.file text) = .error failure

/-- What is reported where something happens at an import: a warning, nothing, the problems of
the text that is read, or an error. -/
def Moment.Tells (storage : Storage) (moment : Moment) (text : String) (location : Location)
    (reported : List Diagnostic) : ImportOutcome → Prop
  | .circular =>
    reported = [⟨.warning, .circularImport, some location, (Problem.circularImport text).message⟩]
  | .repeated => reported = []
  | .opened => reported = problemsOf storage (target moment.file text)
  | .unreadable =>
    ∃ failure, storage.read (target moment.file text) = .error failure ∧
      reported = [⟨.error, .unknownImport, some location,
        (Problem.unreadableImport text failure.text).message⟩]

/-- Whether a diagnostic is about an import. -/
def AboutImport (d : Diagnostic) : Prop :=
  d.code = .circularImport ∨ d.code = .unknownImport

variable {storage : Storage} {moment : Moment} {text : String} {location : Location}
  {path : Path}

theorem not_aboutImport_of_mem_problemsOf {d : Diagnostic} (member : d ∈ problemsOf storage path) :
    ¬ AboutImport d := by
  have coded : d.code = .lexicalAnomaly ∨ d.code = .syntaxError := by
    unfold problemsOf at member
    split at member
    · rcases List.mem_append.mp member with anomaly | problem
      · obtain ⟨t, -, rfl⟩ := List.mem_map.mp anomaly
        exact .inl rfl
      · exact .inr (Reading.syntactic_statements d problem)
    · cases member
  intro about
  rcases coded with coded | coded <;> rcases about with about | about <;>
    cases coded.symm.trans about

/-- What happens at a moment that imports the file of a text. -/
def Moment.outcome (storage : Storage) (moment : Moment) (text : String) : ImportOutcome :=
  let path := target moment.file text
  if (moment.stack.map storage.identity).contains (storage.identity path) then .circular
  else if (moment.opened.map storage.identity).contains (storage.identity path) then .repeated
  else
    match storage.read path with
    | .ok _ => .opened
    | .error _ => .unreadable

private theorem Moment.Decides.eq_outcome (sound : moment.toStage.Sound storage)
    {outcome : ImportOutcome} (decided : moment.Decides storage text outcome) :
    outcome = moment.outcome storage text := by
  have outside := mt (@Stage.Sound.opened_of_stack storage moment.toStage sound
    (storage.identity (target moment.file text)))
  unfold Moment.outcome
  simp only [List.contains_iff_mem]
  cases outcome with
  | circular => exact (if_pos decided).symm
  | repeated => rw [if_neg decided.1, if_pos decided.2]
  | opened =>
    have new := decided.new
    obtain ⟨content, read⟩ := decided.readable
    rw [if_neg (outside new), if_neg new, read]
  | unreadable =>
    obtain ⟨new, failure, failed⟩ := decided
    rw [if_neg (outside new), if_neg new, failed]

theorem Moment.decides_outcome (sound : moment.toStage.Sound storage)
    (imports : moment.statement = .importFile text location) :
    moment.Decides storage text (moment.outcome storage text) ∧
      moment.Tells storage text location (moment.reports storage)
        (moment.outcome storage text) := by
  unfold Moment.outcome reports
  simp only [List.contains_iff_mem]
  by_cases waits :
      storage.identity (target moment.file text) ∈ moment.stack.map storage.identity
  · rw [if_pos waits, events_circular imports waits]
    exact ⟨waits, rfl⟩
  by_cases old : storage.identity (target moment.file text) ∈ moment.opened.map storage.identity
  · rw [if_neg waits, if_pos old, events_repeated imports waits old]
    exact ⟨⟨waits, old⟩, rfl⟩
  rw [if_neg waits, if_neg old]
  cases read : storage.read (target moment.file text) with
  | error failure =>
    rw [events_unreadable imports waits old read]
    exact ⟨⟨old, failure, read⟩, failure, read, rfl⟩
  | ok content =>
    have opens : moment.Opens storage (target moment.file text) :=
      ⟨text, location, content, imports, rfl, read, old⟩
    rw [events_of_opens sound opens]
    exact ⟨opens, reportsOf_problems (problemsOf storage (target moment.file text))⟩

/-- An account of the imports of a file and of everything that it imports: the moments at which
statements are met, and what is reported at each of them. -/
structure Account (storage : Storage) (root : Path) (sheet : Sheet)
    (entries : List JournalEntry) where
  moments : List Moment
  files : List Path
  reported : Moment → List Diagnostic
  course : Course storage (.start root) (statementsOf storage root) moments files
  sources_eq : sheet.sources = root :: files
  /-- The files on the stack are open, and no file is opened twice. -/
  sound : ∀ moment ∈ moments, moment.toStage.Sound storage
  /-- Every statement of every file is met once, in the order of the file. -/
  said : ∀ source ∈ sheet.sources, saidBy source moments = statementsOf storage source
  /-- All that is reported, in order. -/
  reported_eq : entries.filterMap JournalEntry.diagnostic? =
    problemsOf storage root ++ moments.flatMap reported
  silent : ∀ moment ∈ moments, ∀ rule, moment.statement = .rule rule → reported moment = []
  /-- At an import exactly one thing happens, with its own report. -/
  outcome : ∀ moment ∈ moments, ∀ text location,
    moment.statement = .importFile text location →
    ∃! outcome, moment.Decides storage text outcome ∧
      moment.Tells storage text location (reported moment) outcome
  /-- What is reported about imports comes from an import, at which nothing else is reported. -/
  origin : ∀ d ∈ entries.filterMap JournalEntry.diagnostic?, AboutImport d →
    ∃ moment ∈ moments, reported moment = [d] ∧
      ∃ text location, moment.statement = .importFile text location ∧ d.location = some location

private theorem Moment.reports_of_aboutImport {d : Diagnostic} (sound : moment.toStage.Sound storage)
    (member : d ∈ moment.reports storage) (about : AboutImport d) :
    moment.reports storage = [d] ∧
      ∃ text location, moment.statement = .importFile text location ∧
        d.location = some location := by
  cases imports : moment.statement with
  | rule found =>
    rw [reports, events, imports] at member
    cases member
  | importFile text location =>
    obtain ⟨-, told⟩ := decides_outcome sound imports
    generalize moment.outcome storage text = outcome at told
    cases outcome with
    | circular =>
      rw [told] at member ⊢
      obtain rfl := List.mem_singleton.mp member
      exact ⟨rfl, text, location, rfl, rfl⟩
    | repeated =>
      rw [told] at member
      cases member
    | opened =>
      rw [told] at member
      exact absurd about (not_aboutImport_of_mem_problemsOf member)
    | unreadable =>
      obtain ⟨failure, -, told⟩ := told
      rw [told] at member ⊢
      obtain rfl := List.mem_singleton.mp member
      exact ⟨rfl, text, location, rfl, rfl⟩

/-- Loading accounts for imports: without a root that can be read nothing is loaded or reported,
and otherwise every import of every file that is loaded is met once, at each of them exactly one
of four things happens, and nothing else is reported about imports. -/
theorem load_accounts (storage : Storage) (root : Path) :
    match storage.read root with
    | .error failure =>
      Sheet.load storage root =
        .error { message := s!"cannot read sheet: {failure.text}", file := root }
    | .ok _ =>
      ∃ sheet entries, Sheet.load storage root = .ok (sheet, entries) ∧
        Nonempty (Account storage root sheet entries) := by
  cases read : storage.read root with
  | error failure =>
    dsimp only
    rw [Sheet.load, read]
  | ok content =>
    obtain ⟨sheet, entries, moments, files, load, loaded⟩ := exists_loaded read
    have sound := loaded.course.sound_of_mem (Stage.sound_start storage root)
    refine ⟨sheet, entries, load, ⟨{
      moments := moments
      files := files
      reported := Moment.reports storage
      course := loaded.course
      sources_eq := loaded.sources
      sound := sound
      said := loaded.saidBy_source
      reported_eq := loaded.reports
      silent := ?_
      outcome := ?_
      origin := ?_ }⟩⟩
    · intro moment _ rule ruled
      rw [Moment.reports, Moment.events, ruled]
      rfl
    · intro moment member text location imports
      refine ⟨moment.outcome storage text, Moment.decides_outcome (sound moment member) imports, ?_⟩
      intro other happens
      exact happens.1.eq_outcome (sound moment member)
    · intro d member about
      rw [loaded.reports] at member
      rcases List.mem_append.mp member with own | met
      · exact absurd about (not_aboutImport_of_mem_problemsOf own)
      · obtain ⟨moment, known, told⟩ := List.mem_flatMap.mp met
        exact ⟨moment, known, Moment.reports_of_aboutImport (sound moment known) told about⟩

end PackageSheet.Loading
