import PackageSheet.Proofs.Session.Holdings
import PackageSheet.Proofs.Session.Spelling
import PackageSheet.Proofs.Loading.Splicing
import PackageSheet.Proofs.Storage.Absolute

namespace PackageSheet

/-- The directory of a file is absolute, or empty for one that is spelled by its name alone. -/
def Path.IsAnchored (file : Path) : Prop :=
  ∀ directory, file.parent? = some directory → directory.text = "" ∨ directory.isAbsolute = true

theorem Path.isAbsolute_parent? {path directory : Path} (absolute : path.isAbsolute = true)
    (found : path.parent? = some directory) : directory.isAbsolute = true := by
  have anchor := isAbsolute_iff.mp absolute
  rcases path.parent?_cases with ⟨before, -, own⟩ | ⟨-, own⟩
  · rw [own, anchor] at found
    cases found
    exact isAbsolute_iff_text.mpr ⟨_, String.toList_ofList⟩
  · rw [own, anchor] at found
    cases found

private theorem Path.isAnchored_of_isAbsolute {file : Path} (absolute : file.isAbsolute = true) :
    file.IsAnchored :=
  fun _ found => .inr (isAbsolute_parent? absolute found)

namespace Loading

variable {storage : Storage} {stage : Stage} {importer : Path} {statements : List Statement}
  {moments : List Moment} {files : List Path}

private theorem isAbsolute_target (absolute : importer.isAbsolute = true)
    (below : importer.parent? ≠ none) (text : String) : (target importer text).isAbsolute = true := by
  obtain ⟨directory, found⟩ := Option.ne_none_iff_exists'.mp below
  rw [target, found]
  dsimp only
  split
  · assumption
  · exact Path.isAbsolute_join_of_base (Path.isAbsolute_parent? absolute found) _

private theorem Course.isAbsolute (course : Course storage stage statements moments files)
    (absolute : stage.file.isAbsolute = true)
    (below : ∀ file ∈ stage.file :: files, file.parent? ≠ none) :
    ∀ file ∈ files, file.isAbsolute = true := by
  induction course with
  | done => exact nofun
  | passed stays after ih => exact ih absolute below
  | @followed stage statement rest path within later inner files opens inside after ihIn ihAfter =>
    obtain ⟨own, others⟩ := List.forall_mem_cons.mp below
    obtain ⟨first, others⟩ := List.forall_mem_cons.mp others
    obtain ⟨early, late⟩ := List.forall_mem_append.mp others
    obtain ⟨text, -, -, -, rfl, -⟩ := opens
    have entered := isAbsolute_target absolute own text
    refine List.forall_mem_cons.mpr ⟨entered, List.forall_mem_append.mpr ⟨?_, ?_⟩⟩
    · exact ihIn entered (List.forall_mem_cons.mpr ⟨first, early⟩)
    · exact ihAfter absolute (List.forall_mem_cons.mpr ⟨own, late⟩)

end Loading

namespace Site

variable {site : Site} {rule : Rule}

private theorem isAbsolute_root (working : site.storage.workingDirectory.isAbsolute = true)
    (anchored : ∀ file, rule.location.file = some file → file.IsAnchored) :
    (site.root rule).value.isAbsolute = true := by
  have base : (site.baseDirectory rule.location).isAbsolute = true := by
    unfold baseDirectory
    split
    · rename_i directory found
      obtain ⟨file, placed, above⟩ := Option.bind_eq_some_iff.mp found
      split
      · exact working
      · rename_i filled
        exact (anchored file placed directory above).resolve_left filled
    · exact working
  unfold root
  split
  · exact working
  · dsimp only
    split
    · assumption
    · exact Path.isAbsolute_join_of_base base _

end Site

namespace Session

variable {session : Session}

theorem storage_performAll (ready : session.Ready) (operations : List Operation) :
    (session.performAll operations).site.storage = session.site.storage := by
  induction operations generalizing session with
  | nil => rfl
  | cons operation operations ih =>
    cases operation with
    | query query =>
      have leads := leads_ask ready query
      refine (ih (leads.ready ready)).trans ?_
      rw [leads.site]
      rfl
    | set name value => exact ih (keeps_set ready name value).ready

/-- The works of a history are for rules of the sheet that it began with. -/
theorem Made.exists_rule {operations : List Operation} {making : Making}
    (made : session.Made operations making) (ready : session.Ready) :
    making.site.storage = session.site.storage ∧
      ∃ rule ∈ session.sheet.selected Site.listRule (some making.recipe.name),
        making.recipe = making.site.recipe rule := by
  obtain ⟨before, name, after, -, performs⟩ := made
  have keeps := keeps_performAll ready before
  rw [performs.site_eq]
  refine ⟨storage_performAll ready before, ?_⟩
  have member : making.recipe ∈ (session.performAll before).site.recipes making.recipe.name := by
    rw [performs.recipes]
    exact List.mem_singleton_self _
  obtain ⟨rule, selected, own⟩ := List.mem_map.mp member
  exact ⟨rule, keeps.grown.selected _ ▸ selected, own.symm⟩

private theorem isAbsolute_of_origin {done : Making → Prop} {name : String} {root source : Path}
    (finds : ∀ making, done making → making.site.storage.FindsAbsolute)
    (roots : ∀ making, done making → making.recipe.root.value.isAbsolute = true)
    (origin : Making.Origin done name root source) : source.isAbsolute = true := by
  induction origin with
  | @found making token files source known member pattern glob found =>
    exact finds making known _ (roots making known) _ _ glob _ found
  | passed _ _ _ ih => exact ih

variable {site : Site} {path : Path}

/-- In every state that a session on anchored rules gets to, its file lists hold absolute paths. -/
theorem isAbsolute_of_anchored {sheet : Sheet} {entries : List JournalEntry}
    (finds : site.storage.FindsAbsolute)
    (working : site.storage.workingDirectory.isAbsolute = true)
    (anchored : ∀ rule ∈ sheet.rules, ∀ file, rule.location.file = some file → file.IsAnchored)
    (operations : List Operation) {name : String} {found : List Entry}
    (done : ((begin site sheet entries).performAll operations).progress? name = some (.done found)) :
    ∀ entry ∈ found, entry.source.isAbsolute = true := by
  have ready := ready_begin site sheet entries
  intro entry member
  obtain ⟨making, known, rfl, rfl, throughout⟩ := exists_making site sheet entries operations done
  obtain ⟨⟨-, root, origin, -⟩, -⟩ := Making.fits_entries known throughout entry member
  refine isAbsolute_of_origin (fun made known => ?_) (fun made known => ?_) origin
  · obtain ⟨storage, -⟩ := known.exists_rule ready
    rw [storage]
    exact finds
  · obtain ⟨storage, rule, selected, own⟩ := known.exists_rule ready
    rw [own]
    refine Site.isAbsolute_root ?_ (anchored rule (List.mem_filter.mp selected).1)
    rw [storage]
    exact working

/-- Sources are absolute paths. In every state of a session on a sheet that was loaded by an absolute
path, none of whose files is the root itself, each entry of a list that is done has an absolute source;
so it has where each file of the sheet has an absolute directory or is spelled by its name alone. -/
theorem sources_absolute (finds : site.storage.FindsAbsolute)
    (working : site.storage.workingDirectory.isAbsolute = true)
    (loaded : load site path = .ok session)
    (spelled : (path.isAbsolute = true ∧ ∀ file ∈ session.sheet.sources, file.parent? ≠ none) ∨
      ∀ file ∈ session.sheet.sources, file.IsAnchored) (operations : List Operation) :
    ∀ name found, (session.performAll operations).progress? name = some (.done found) →
      ∀ entry ∈ found, entry.source.isAbsolute = true := by
  obtain ⟨sheet, entries, own, rfl⟩ := exists_sheet_of_load loaded
  obtain ⟨content, readable, -⟩ := Sheet.exists_ofFile_of_load own
  obtain ⟨_, _, moments, files, again, course, sources, -, -, placed, -⟩ :=
    Loading.load_splices readable
  cases own.symm.trans again
  have anchored : ∀ file ∈ sheet.sources, file.IsAnchored := by
    refine spelled.elim (fun ⟨absolute, below⟩ => ?_) id
    have below : ∀ file ∈ path :: files, file.parent? ≠ none := sources ▸ below
    rw [sources]
    refine List.forall_mem_cons.mpr ⟨Path.isAnchored_of_isAbsolute absolute, fun file member => ?_⟩
    exact Path.isAnchored_of_isAbsolute (course.isAbsolute absolute below file member)
  intro name found done
  refine isAbsolute_of_anchored finds working (fun rule member file there => ?_) operations done
  obtain ⟨source, known, here⟩ := placed rule member
  have same : source = file := Option.some.inj ((of_decide_eq_true here).symm.trans there)
  exact same ▸ anchored source known

/-- The list of a sheet that is loaded by its absolute path holds its file by an absolute path. -/
theorem sources_absolute_libraries :
    ∃ session found, load shelf ⟨"/w/p"⟩ = .ok session ∧
      (session.performAll [.query (.fileList "x")]).progress? "x" = some (.done found) ∧
      found ≠ [] ∧ ∀ entry ∈ found, entry.source.isAbsolute = true := by
  have own : IsOfLibraries ⟨"/w/p"⟩ := ⟨by decide +kernel, by decide +kernel⟩
  have globbed : shelved.glob (librariesRoot ⟨"/w/p"⟩) "*.dll" = .ok [⟨"/w/out/a.dll"⟩] := by
    decide +kernel
  have done := progress?_of_fileList (fileList_libraries globbed)
  refine ⟨libraries ⟨"/w/p"⟩, _, load_libraries own, done, List.cons_ne_nil _ _, ?_⟩
  refine sources_absolute (Storage.findsAbsolute_onDisk shelved) (by decide) (load_libraries own)
    (.inl ⟨by decide, ?_⟩) [.query (.fileList "x")] "x" _ done
  decide

/-- By a relative path with a directory, the same list holds the same file by a relative path. -/
theorem source_relative :
    ∃ session found, shelf.storage.workingDirectory.isAbsolute = true ∧
      load shelf ⟨"../w/p"⟩ = .ok session ∧
      (session.performAll [.query (.fileList "x")]).progress? "x" = some (.done found) ∧
      ∃ entry ∈ found, entry.source.isAbsolute = false := by
  have own : IsOfLibraries ⟨"../w/p"⟩ := ⟨by decide +kernel, by decide +kernel⟩
  have globbed : shelved.glob (librariesRoot ⟨"../w/p"⟩) "*.dll" = .ok [⟨"../w/out/a.dll"⟩] := by
    decide +kernel
  have done := progress?_of_fileList (fileList_libraries globbed)
  exact ⟨libraries ⟨"../w/p"⟩, _, by decide, load_libraries own, done, _,
    List.mem_singleton_self _, by decide⟩

end Session

end PackageSheet
