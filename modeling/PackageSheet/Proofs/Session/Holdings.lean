import PackageSheet.Proofs.Session.Listing
import PackageSheet.Proofs.Session.Singly

namespace PackageSheet

namespace Session

/-- A list that is done is what a work of the history left, and throughout that work the slots were
sound. -/
theorem exists_making (site : Site) (sheet : Sheet) (entries : List JournalEntry)
    (operations : List Operation) {name : String} {found : List Entry} :
    let session := begin site sheet entries
    let after := session.performAll operations
    after.progress? name = some (.done found) →
      ∃ making, session.Made operations making ∧ making.recipe.name = name ∧
        making.entries = found ∧
        making.Throughout (Making.Sound (session.Made operations) after.listNames) := by
  intro session after done
  have names : session.listNames = after.listNames :=
    (keeps_performAll (ready_begin site sheet entries) operations).kept.names.symm
  let sound := Making.Sound (session.Made operations) after.listNames
  let good (name : String) (found : List Entry) : Prop :=
    ∃ making, session.Made operations making ∧ making.recipe.name = name ∧
      making.entries = found ∧ making.Throughout sound
  have new : good name found := by
    let holds (slots : Slots) : Prop := sound slots ∧ slots.AllDone good
    have unvisited {good : String → List Entry → Prop} :
        session.assembly.slots.AllDone good := fun name found done =>
      nomatch unvisited_of_begin site sheet entries done
    have reached : holds after.assembly.slots := by
      refine keeps_history ?_ ?_ ⟨⟨names, unvisited⟩, unvisited⟩
      · rintro slots name ⟨⟨listed, fit⟩, made⟩ -
        exact ⟨⟨(Slots.names_mark _ _ _).trans listed, fit.begin⟩, made.begin⟩
      · intro making made throughout
        have soundly : making.Throughout sound := throughout.imp fun _ held => held.1
        obtain ⟨⟨listed, fit⟩, done⟩ := throughout.excluded _ (List.prefix_refl _)
        have own (entry : Entry) (member : entry ∈ making.entries) :=
          (Making.fits_entries made soundly entry member).1
        exact ⟨⟨(Slots.names_mark _ _ _).trans listed, fit.finish own⟩,
          done.finish ⟨making, made, rfl, rfl, soundly⟩⟩
    exact reached.2 name found done
  exact new

/-- Destinations stay inside the package. In every state, each entry of a list that is done, the
result of some work of the history, has a relative destination with only names for components, below
the prefix that the list had in that work. It ends in the name of its file, unless the file is the
root below which it was found. -/
theorem destinations_of_history (site : Site) (sheet : Sheet) (entries : List JournalEntry)
    (operations : List Operation) :
    let session := begin site sheet entries
    let made := session.Made operations
    ∀ name found, (session.performAll operations).progress? name = some (.done found) →
      ∃ making, made making ∧ making.recipe.name = name ∧ making.entries = found ∧
        ∀ entry ∈ found,
          entry.destination.isAbsolute = false ∧
          (∀ c ∈ entry.destination.components, c.isName = true) ∧
          (Path.mk (Destination.normalize making.recipe.destination.value)).components <+:
            entry.destination.components ∧
          ∃ root, Making.Origin made name root entry.source ∧
            ∀ file, entry.source.fileName? = some file → entry.source.same root = false →
              entry.destination.fileName? = some file := by
  intro session made name found done
  obtain ⟨making, known, rfl, rfl, throughout⟩ := exists_making site sheet entries operations done
  refine ⟨making, known, rfl, rfl, fun entry member => ?_⟩
  obtain ⟨⟨named, origin⟩, below⟩ := Making.fits_entries known throughout entry member
  exact ⟨named.isAbsolute, named, below, origin⟩

/-- Two lists that include each other, of which one also excludes the other one. -/
def knotted : Sheet where
  rules :=
    [{ name := "files", parameter := some "left",
       properties := [⟨"include", ["*.md", "right"], {}⟩, ⟨"destination", ["../doc/"], {}⟩] },
     { name := "files", parameter := some "right",
       properties := [⟨"include", ["*.*", "left"], {}⟩, ⟨"exclude", ["left", "b.*"], {}⟩] }]

theorem exists_done_knotted (name : String)
    (rules : (knotted.selected Site.listRule (some name)).length = 1) : ∃ found,
    ((begin twoFiles knotted []).performAll [.query (.fileList name)]).progress? name =
      some (.done found) := by
  have ready := ready_begin twoFiles knotted []
  have unique : ((begin twoFiles knotted []).fileList name).1.isSome :=
    (isSome_fileList_iff ready name).mpr rules
  obtain ⟨found, answer⟩ := Option.isSome_iff_exists.mp unique
  exact ⟨found, progress?_of_fileList answer⟩

/-- In a list that includes one which excludes it in turn, destinations stay below `doc`. -/
theorem destinations_knotted : ∃ found,
    ((begin twoFiles knotted []).performAll [.query (.fileList "left")]).progress? "left" =
      some (.done found) ∧
    ∀ entry ∈ found, entry.destination.isAbsolute = false ∧
      ∀ c ∈ entry.destination.components, c.isName = true := by
  obtain ⟨found, done⟩ := exists_done_knotted "left" (by decide)
  have destinations := destinations_of_history twoFiles knotted [] [.query (.fileList "left")]
  obtain ⟨_, -, -, -, inside⟩ := destinations "left" found done
  refine ⟨found, done, fun entry member => ?_⟩
  obtain ⟨relative, named, -⟩ := inside entry member
  exact ⟨relative, named⟩

/-! ### Sources -/

variable {session last : Session}

/-- The entries that a request yields are those of the list in every later state. -/
theorem entriesOf_of_leads (ready : session.Ready) {name : String}
    (leads : (session.fileList name).2.Leads last) :
    last.assembly.entriesOf name = ((session.fileList name).1).getD [] := by
  have there := (leads_fileList ready name).ready ready
  cases answer : (session.fileList name).1 with
  | some found =>
    have done := progress?_of_fileList answer
    exact Assembly.entriesOf_eq ((leads.runs.extends there.valid).done name found done)
  | none =>
    apply Assembly.entriesOf_eq_nil
    intro done
    have unique := (leads.ready there).valid.unique_of_isDone done
    have further := (leads_fileList ready name).trans leads
    rw [further.alike.only?_eq] at unique
    have some : (session.fileList name).1.isSome := (Site.isSome_resolve_iff ready.valid).mpr unique
    simp [answer] at some

private theorem fst_gatherLists (ready : session.Ready) (location : Location) (raws : List String)
    (entries : List Entry) :
    (gatherLists location raws entries session).1 =
      Entry.gather entries (raws.flatMap fun raw =>
        (gatherLists location raws entries session).2.assembly.entriesOf
          (session.site.expand raw (some location)).value) := by
  induction raws generalizing session entries with
  | nil => rfl
  | cons raw raws ih =>
    have expanded := (leads_expand session raw (some location)).ready ready
    let name := (session.site.expand raw (some location)).value
    let asked := (session.expand raw (some location)).2.fileList name
    have there : asked.2.Ready := (leads_fileList expanded name).ready expanded
    have own := entriesOf_of_leads expanded
      (leads_gatherLists there location raws (Entry.gather entries (asked.1.getD [])))
    have rest := ih there (Entry.gather entries (asked.1.getD []))
    have step : gatherLists location (raw :: raws) entries session =
        gatherLists location raws (Entry.gather entries (asked.1.getD [])) asked.2 := rfl
    rw [step, List.flatMap_cons, Entry.gather_append, own, rest]
    rfl

/-- No duplication and no invention. In every state, the files of a list that is done, the result of
some work of the history, are different, each was found for an include token of the list or of one
that it includes, none matches an exclude token that is a pattern, and none is in a list that an
exclude token named and that was done when it was excluded. The files that a role gathers are
different, and for each file of any of its lists it has the entry of the first such list. -/
theorem sources_of_history (site : Site) (sheet : Sheet) (entries : List JournalEntry)
    (operations : List Operation) :
    let session := begin site sheet entries
    let after := session.performAll operations
    let made := session.Made operations
    (∀ name found, after.progress? name = some (.done found) →
      Entry.Distinct found ∧
      ∃ making, made making ∧ making.recipe.name = name ∧ making.entries = found ∧
        (∀ entry ∈ found, ∃ root, Making.Origin made name root entry.source) ∧
        (∀ token ∈ making.recipe.excludes, token.value ∉ after.listNames →
          ∀ exclusion, Glob.Exclusion.compile token.value = .ok exclusion →
            ∀ entry ∈ found, exclusion.excludes entry.source = false) ∧
        ∀ before token rest others, making.recipe.excludes = before ++ token :: rest →
          (making.excluded (before ++ [token])).2.slots.progress? token.value =
            some (.done others) →
          ∀ entry ∈ found, Entry.covers others entry.source = false) ∧
    ∀ role,
      let answer := after.roleFiles role
      let list (raw : String) : List Entry :=
        answer.2.assembly.entriesOf (after.site.expand raw (some role.location)).value
      Entry.Distinct answer.1 ∧
      ∀ entry, entry ∈ answer.1 ↔
        ∃ before raw rest, role.fileLists = before ++ raw :: rest ∧ entry ∈ list raw ∧
          ∀ other ∈ before, Entry.covers (list other) entry.source = false := by
  intro session after made
  constructor
  · intro name found done
    obtain ⟨making, known, rfl, rfl, throughout⟩ :=
      exists_making site sheet entries operations done
    refine ⟨making.distinct_entries, making, known, rfl, rfl, ?_, ?_, ?_⟩
    · intro entry member
      obtain ⟨root, origin, -⟩ := (Making.fits_entries known throughout entry member).1.origin
      exact ⟨root, origin⟩
    · intro token member undeclared exclusion compiled
      have names := Making.names_start throughout
      refine making.excludes_eq_false member ?_ compiled
      rwa [Slots.declares_eq_false_iff, names]
    · intro before token rest others split done
      exact making.covers_eq_false split done
  · intro role answer list
    have ready : after.Ready := (keeps_performAll (ready_begin site sheet entries) operations).ready
    have distinct (raw : String) : Entry.Distinct (list raw) := by
      by_cases done : answer.2.assembly.IsDone (after.site.expand raw (some role.location)).value
      · obtain ⟨found, known⟩ := done
        have whole : session.performAll (operations ++ [.query (.roleFiles role)]) = answer.2 :=
          performAll_append _ _ _
        obtain ⟨making, -, -, same, -⟩ := exists_making site sheet entries
          (operations ++ [.query (.roleFiles role)]) (whole ▸ known)
        have held : list raw = found := Assembly.entriesOf_eq known
        rw [held, ← same]
        exact making.distinct_entries
      · have none : list raw = [] := Assembly.entriesOf_eq_nil done
        rw [none]
        exact .nil
    have gathered : answer.1 = Entry.gather [] (role.fileLists.flatMap list) :=
      fst_gatherLists ready role.location role.fileLists []
    rw [gathered]
    refine ⟨Entry.Distinct.gather .nil _, fun entry => ?_⟩
    rw [Entry.mem_gather_flatMap fun raw _ => distinct raw]
    simp [Entry.covers]

/-- No file that the pattern of `right` stands for is in that list. -/
theorem sources_knotted : ∃ found,
    ((begin twoFiles knotted []).performAll [.query (.fileList "right")]).progress? "right" =
      some (.done found) ∧ Entry.Distinct found ∧
    ∀ exclusion, Glob.Exclusion.compile "b.*" = .ok exclusion →
      ∀ entry ∈ found, exclusion.excludes entry.source = false := by
  obtain ⟨found, done⟩ := exists_done_knotted "right" (by decide)
  have sources := sources_of_history twoFiles knotted [] [.query (.fileList "right")]
  obtain ⟨distinct, making, ⟨before, name, after, split, performs⟩, own, -, -, excluded, -⟩ :=
    sources.1 "right" found done
  refine ⟨found, done, distinct, ?_⟩
  have first : before = [] := by
    cases before with
    | nil => rfl
    | cons operation before => simp [singlyAll, singly] at split
  subst first
  have tokens : ((begin twoFiles knotted []).site.recipes "right").map
      (fun recipe => recipe.excludes.map (·.value)) = [["left", "b.*"]] := by cbv
  have rules : (begin twoFiles knotted []).site.recipes making.recipe.name = [making.recipe] :=
    performs.recipes
  rw [← own, rules, List.map_singleton, List.singleton_inj] at tokens
  obtain ⟨token, member, pattern⟩ : ∃ token ∈ making.recipe.excludes, token.value = "b.*" :=
    List.mem_map.mp (by simp [tokens])
  intro exclusion compiled
  refine excluded token member ?_ exclusion (pattern ▸ compiled)
  have kept := keeps_performAll (ready_begin twoFiles knotted []) [.query (.fileList "right")]
  rw [pattern, listNames, kept.kept.names]
  decide

end Session

end PackageSheet
