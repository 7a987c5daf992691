import PackageSheet.FileList.Assembly
import PackageSheet.Proofs.FileList.Content
import PackageSheet.Proofs.FileList.Report
import Mathlib.Data.List.Chain

/-!
The work on file lists, one step after another. A tour holds the lists in progress, the innermost
first, and the assembly. `Tour.Step` says once what a step can do, and what is true of every run
follows from what each step keeps: the slots agree with the path (`Tour.Valid`), and nothing that
was done is undone (`Assembly.Extends`).
-/

namespace PackageSheet

@[simp] theorem Slots.isSome_progress?_mark (slots : Slots) (name : String) (progress : Progress)
    (other : String) :
    ((slots.mark name progress).progress? other).isSome = (slots.progress? other).isSome := by
  rw [Slots.progress?_mark]
  split
  · rename_i same
    rw [same, Option.isSome_map]
  · rfl

namespace Assembly

def write (assembly : Assembly) (entries : List JournalEntry) : Assembly :=
  { assembly with
    journal := { assembly.journal with entries := assembly.journal.entries ++ entries } }

def entriesOf (assembly : Assembly) (name : String) : List Entry :=
  (assembly.slots.entries? name).getD []

def IsDone (assembly : Assembly) (name : String) : Prop :=
  ∃ entries, assembly.slots.progress? name = some (.done entries)

/-- A circle was reported for the list of a name. -/
def Accuses (assembly : Assembly) (name : String) : Prop :=
  .circular name ∈ assembly.journal.reported

variable {assembly : Assembly} {name other : String} {entries : List JournalEntry}
  {fault known : ListFault} {problem : Problem} {location : Option Location}

@[simp] theorem slots_reportAll (ds : List Diagnostic) :
    (assembly.reportAll ds).slots = assembly.slots := rfl

@[simp] theorem slots_note (text : String) : (assembly.note text).slots = assembly.slots := rfl

@[simp] theorem slots_mark (progress : Progress) :
    (assembly.mark name progress).slots = assembly.slots.mark name progress := rfl

@[simp] theorem mem_reported_complain :
    known ∈ (assembly.complain fault problem location).journal.reported ↔
      known = fault ∨ known ∈ assembly.journal.reported := by
  unfold complain Journal.reportOnce
  split
  · rename_i knows
    have member : fault ∈ assembly.journal.reported := by simpa [Journal.knows] using knows
    exact ⟨.inr, fun found => found.elim (fun same => same ▸ member) id⟩
  · exact List.mem_cons

/-- A fault that is known is not reported again. -/
theorem complain_of_mem (member : fault ∈ assembly.journal.reported) :
    assembly.complain fault problem location = assembly := by
  simp [complain, Journal.reportOnce, Journal.knows, member]

theorem isDone_iff : assembly.IsDone name ↔ (assembly.slots.entries? name).isSome := by
  unfold IsDone Slots.entries?
  cases assembly.slots.progress? name with
  | none => simp
  | some progress => cases progress <;> simp [Progress.entries?]

theorem entriesOf_eq {found : List Entry}
    (h : assembly.slots.progress? name = some (.done found)) : assembly.entriesOf name = found := by
  simp [entriesOf, Slots.entries?, h, Progress.entries?]

theorem entriesOf_eq_nil (h : ¬ assembly.IsDone name) : assembly.entriesOf name = [] := by
  rw [isDone_iff, Option.not_isSome_iff_eq_none] at h
  simp [entriesOf, h]

/-- Marking a declared list changes its progress and no other. -/
theorem progress?_mark {old : Progress} (known : assembly.slots.progress? name = some old)
    (progress : Progress) (other : String) :
    (assembly.mark name progress).slots.progress? other =
      if other = name then some progress else assembly.slots.progress? other := by
  simp [Slots.progress?_mark, known]

/-- What no work on lists takes back: the names stay, what is done stays done, what was visited
stays visited, and what was reported stays reported. -/
structure Extends (before after : Assembly) : Prop where
  names : after.slots.map (·.1) = before.slots.map (·.1)
  done : ∀ name entries, before.slots.progress? name = some (.done entries) →
    after.slots.progress? name = some (.done entries)
  unvisited : ∀ name, after.slots.progress? name = some .unvisited →
    before.slots.progress? name = some .unvisited
  reported : before.journal.reported ⊆ after.journal.reported

theorem Extends.refl (assembly : Assembly) : Extends assembly assembly :=
  ⟨rfl, fun _ _ h => h, fun _ h => h, fun _ h => h⟩

theorem Extends.trans {first second third : Assembly} (earlier : Extends first second)
    (later : Extends second third) : Extends first third where
  names := later.names.trans earlier.names
  done name entries h := later.done name entries (earlier.done name entries h)
  unvisited name h := earlier.unvisited name (later.unvisited name h)
  reported := fun _ known => later.reported (earlier.reported known)

theorem Extends.of_slots {before after : Assembly} (same : after.slots = before.slots)
    (reported : before.journal.reported ⊆ after.journal.reported) : Extends before after :=
  ⟨by rw [same], fun _ _ h => same ▸ h, fun _ h => same ▸ h, reported⟩

theorem Extends.mark {old progress : Progress}
    (known : assembly.slots.progress? name = some old) (unfinished : ∀ entries, old ≠ .done entries)
    (begun : progress ≠ .unvisited) : Extends assembly (assembly.mark name progress) where
  names := Slots.names_mark ..
  done other entries found := by
    rw [progress?_mark known]
    split
    · rename_i same
      rw [same, known] at found
      exact absurd (Option.some.inj found) (unfinished entries)
    · exact found
  unvisited other found := by
    rw [progress?_mark known] at found
    split at found
    · exact absurd (Option.some.inj found) begun
    · exact found
  reported := fun _ h => h

end Assembly

/-- The lists in progress, the innermost first, and the assembly. -/
structure Tour where
  path : List String
  assembly : Assembly

namespace Tour

/-- A list may be asked for at a place: by the innermost list in progress, which refers to it, or
from outside as the root. -/
def MayAsk (site : Site) (root : String) (path : List String) (name : String) : Prop :=
  match path with
  | [] => name = root
  | top :: _ => site.Refers top name

/-- A list that a list in progress asked for is done, or it is in progress itself and was reported
for that. -/
def Settled (tour : Tour) (name : String) : Prop :=
  tour.assembly.IsDone name ∨ name ∈ tour.path ∧ tour.assembly.Accuses name

/-- One step of the work on the list of a root. A list is left when all that it refers to is
settled, and its entries are its content by what is done at that moment. -/
inductive Step (site : Site) (root : String) : Tour → Tour → Prop where
  | write {path : List String} {assembly : Assembly} (entries : List JournalEntry)
      (plain : ∀ entry ∈ entries, entry.isPlain) :
      Step site root ⟨path, assembly⟩ ⟨path, assembly.write entries⟩
  | undefined {path : List String} {assembly : Assembly} {name : String}
      (absent : site.recipes name = []) :
      Step site root ⟨path, assembly⟩
        ⟨path, assembly.complain (.undefined name) (.undefinedList name) none⟩
  | ambiguous {path : List String} {assembly : Assembly} {name : String} {first second : Recipe}
      {others : List Recipe} (several : site.recipes name = first :: second :: others) :
      Step site root ⟨path, assembly⟩
        ⟨path, assembly.complain (.ambiguous name) (.ambiguousList name (others.length + 2))
          (some first.location)⟩
  | circular {path : List String} {assembly : Assembly} {top name : String}
      (edge : site.Refers top name) (busy : name ∈ top :: path) :
      Step site root ⟨top :: path, assembly⟩
        ⟨top :: path, assembly.complain (.circular name) (.circularList name) none⟩
  | enter {path : List String} {assembly : Assembly} {name : String}
      (new : assembly.slots.progress? name = some .unvisited)
      (unique : (site.only? name).isSome) (asked : MayAsk site root path name) :
      Step site root ⟨path, assembly⟩ ⟨name :: path, assembly.mark name .inProgress⟩
  | leave {path : List String} {assembly : Assembly} {name : String} {recipe : Recipe}
      (found : site.only? name = some recipe)
      (settled : ∀ other, site.Refers name other → Settled ⟨name :: path, assembly⟩ other) :
      Step site root ⟨name :: path, assembly⟩
        ⟨path, assembly.mark name (.done (site.content assembly.entriesOf recipe))⟩

def Steps (site : Site) (root : String) : Tour → Tour → Prop :=
  Relation.ReflTransGen (Step site root)

/-- The slots agree with the sheet and with the path: the declared names are those with a rule, the
lists in progress are those on the path, each of which refers to the next, and only lists with one
rule were ever begun. -/
structure Valid (site : Site) (tour : Tour) : Prop where
  declared : ∀ name, (tour.assembly.slots.progress? name).isSome ↔ site.recipes name ≠ []
  busy : ∀ name, tour.assembly.slots.progress? name = some .inProgress ↔ name ∈ tour.path
  nodup : tour.path.Nodup
  begun : ∀ name progress, tour.assembly.slots.progress? name = some progress →
    progress ≠ .unvisited → (site.only? name).isSome
  linked : tour.path.IsChain fun inner outer => site.Refers outer inner

variable {site : Site} {root name other : String} {path : List String}
  {before after tour : Tour} {first second : Assembly}

theorem Valid.of_slots (valid : Valid site ⟨path, first⟩) (same : second.slots = first.slots) :
    Valid site ⟨path, second⟩ where
  declared := by simpa only [same] using valid.declared
  busy := by simpa only [same] using valid.busy
  nodup := valid.nodup
  begun := by simpa only [same] using valid.begun
  linked := valid.linked

theorem Valid.unique_of_mem (valid : Valid site tour) (member : name ∈ tour.path) :
    (site.only? name).isSome :=
  valid.begun name .inProgress ((valid.busy name).mpr member) nofun

theorem Valid.unique_of_isDone (valid : Valid site tour) (done : tour.assembly.IsDone name) :
    (site.only? name).isSome := by
  obtain ⟨entries, found⟩ := done
  exact valid.begun name (.done entries) found nofun

theorem Valid.cases_of_unique (valid : Valid site tour) (unique : (site.only? name).isSome) :
    tour.assembly.slots.progress? name = some .unvisited ∨ name ∈ tour.path ∨
      tour.assembly.IsDone name := by
  obtain ⟨recipe, found⟩ := Option.isSome_iff_exists.mp unique
  have declared : (tour.assembly.slots.progress? name).isSome :=
    (valid.declared name).mpr (List.ne_nil_of_mem (Site.mem_recipes_of_only? found))
  obtain ⟨progress, known⟩ := Option.isSome_iff_exists.mp declared
  cases progress with
  | unvisited => exact .inl known
  | inProgress => exact .inr (.inl ((valid.busy name).mp known))
  | done entries => exact .inr (.inr ⟨entries, known⟩)

theorem Valid.not_mem_of_isDone (valid : Valid site tour) (done : tour.assembly.IsDone name) :
    name ∉ tour.path := by
  intro member
  obtain ⟨entries, found⟩ := done
  have busy := (valid.busy name).mpr member
  rw [found] at busy
  cases busy

theorem Valid.progress_of_head (valid : Valid site ⟨name :: path, first⟩) :
    first.slots.progress? name = some .inProgress :=
  (valid.busy name).mpr List.mem_cons_self

theorem Step.valid (step : Step site root before after) (valid : Valid site before) :
    Valid site after := by
  cases step with
  | write | undefined | ambiguous | circular => exact valid.of_slots rfl
  | @enter path assembly name new unique asked =>
    have view := Assembly.progress?_mark new .inProgress
    have fresh : name ∉ path := fun member => by
      have busy := (valid.busy name).mpr member
      rw [new] at busy
      cases busy
    constructor
    · simpa using valid.declared
    · intro other
      rw [view, List.mem_cons]
      split
      · rename_i same
        simp [same]
      · rename_i different
        simpa [different] using valid.busy other
    · exact List.nodup_cons.mpr ⟨fresh, valid.nodup⟩
    · intro other progress known begun
      rw [view] at known
      split at known
      · rename_i same
        exact same ▸ unique
      · exact valid.begun other progress known begun
    · refine List.isChain_cons.mpr ⟨?_, valid.linked⟩
      intro outer head
      cases path with
      | nil => cases head
      | cons top rest => exact Option.some.inj head ▸ asked
  | @leave path assembly name recipe found settled =>
    have view := Assembly.progress?_mark valid.progress_of_head
      (.done (site.content assembly.entriesOf recipe))
    have distinct := List.nodup_cons.mp valid.nodup
    constructor
    · simpa using valid.declared
    · intro other
      rw [view]
      split
      · rename_i same
        subst same
        simpa using distinct.1
      · rename_i different
        simpa [different] using valid.busy other
    · exact distinct.2
    · intro other progress known begun
      rw [view] at known
      split at known
      · rename_i same
        simp [same, found]
      · exact valid.begun other progress known begun
    · exact (List.isChain_cons.mp valid.linked).2

theorem Step.extends (step : Step site root before after) (valid : Valid site before) :
    before.assembly.Extends after.assembly := by
  cases step with
  | write => exact .of_slots rfl fun _ known => known
  | undefined | ambiguous | circular =>
    exact .of_slots rfl fun _ known => Assembly.mem_reported_complain.mpr (.inr known)
  | enter new => exact .mark new nofun nofun
  | leave => exact .mark valid.progress_of_head nofun nofun

/-- Steps one after another, each for some root. -/
def Runs (site : Site) : Tour → Tour → Prop :=
  Relation.ReflTransGen fun before after => ∃ root, Step site root before after

theorem Runs.valid (runs : Runs site before after) (valid : Valid site before) :
    Valid site after := by
  induction runs with
  | refl => exact valid
  | tail _ step ih =>
    obtain ⟨root, step⟩ := step
    exact step.valid ih

/-- What every step keeps holds after a run. -/
theorem Runs.invariant {holds : Tour → Prop} (runs : Runs site before after)
    (valid : Valid site before) (start : holds before)
    (keeps : ∀ root before after, Step site root before after → Valid site before →
      holds before → holds after) : holds after := by
  induction runs with
  | refl => exact start
  | tail earlier step ih =>
    obtain ⟨root, step⟩ := step
    exact keeps root _ _ step (Runs.valid earlier valid) ih

theorem Runs.extends (runs : Runs site before after) (valid : Valid site before) :
    before.assembly.Extends after.assembly := by
  let grown (tour : Tour) : Prop := before.assembly.Extends tour.assembly
  have start : grown before := .refl _
  exact runs.invariant valid start fun _ _ _ step valid held => held.trans (step.extends valid)

theorem Steps.runs (steps : Steps site root before after) : Runs site before after :=
  Relation.ReflTransGen.mono (fun _ _ step => ⟨root, step⟩) _ _ steps

theorem Steps.valid (steps : Steps site root before after) (valid : Valid site before) :
    Valid site after :=
  steps.runs.valid valid

theorem Steps.extends (steps : Steps site root before after) (valid : Valid site before) :
    before.assembly.Extends after.assembly :=
  steps.runs.extends valid

end Tour

end PackageSheet
