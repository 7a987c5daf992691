import PackageSheet.Proofs.FileList.Copying
import PackageSheet.Proofs.FileList.Pattern
import PackageSheet.Proofs.Loading.Copying
import PackageSheet.Proofs.Session.Run

/-!
Destinations by two spellings of the path of a sheet. Lists of straight rules land at the same places,
whichever of the paths the sheet is loaded by (`destinations_of_spellings`). A path that begins with `.`
can make its roots begin so too, and such a root stays in front of where its files land
(`destinations_apart`).
-/

namespace PackageSheet

namespace Entry

private theorem trim_keep (entries : List Entry) : trim .keep entries = entries := by
  induction entries with
  | nil => rfl
  | cons entry entries ih => exact congrArg (entry :: ·) ih

private theorem place_empty (entries : List Entry) : place "" entries = entries := by
  have normal : Destination.normalize "" = "" := by
    rw [Destination.normalize, Destination.normalizeChars]
    rfl
  refine List.map_id'' (fun entry => ?_) entries
  rw [Destination.place, normal]
  rfl

end Entry

namespace Session

variable {site : Site} {disk : Disk} {session second : Session}

def destinations (lists : List (String × List Entry)) : List (String × List Path) :=
  lists.map fun list => (list.1, list.2.map (·.destination))

private theorem destinations_fileLists {respelling : Respelling} {lists : String → Prop}
    {declared : List String}
    (alike : Site.Respelled respelling lists declared session.site second.site)
    (slots : Slots.Respelled respelling lists declared session.assembly.slots second.assembly.slots)
    {names : List String} (asked : ∀ name ∈ names, lists name) :
    destinations (second.fileLists names).1 = destinations (session.fileLists names).1 := by
  induction names generalizing session second with
  | nil => rfl
  | cons name names ih =>
    obtain ⟨own, asked⟩ := List.forall_mem_cons.mp asked
    obtain ⟨answer, after⟩ := alike.resolve own slots
    have first : destinations (((second.fileList name).1.map (name, ·)).toList) =
        destinations (((session.fileList name).1.map (name, ·)).toList) := by
      match (session.fileList name).1, (second.fileList name).1, answer with
      | _, _, .none => rfl
      | _, _, .some each =>
        exact congrArg (fun paths => [(name, paths)]) (Entry.destinations_eq each)
    have others : destinations ((second.fileList name).2.fileLists names).1 =
        destinations ((session.fileList name).2.fileLists names).1 :=
      ih alike after asked
    rw [destinations, destinations] at first others ⊢
    rw [fileLists, fileLists, List.map_append, List.map_append, first, others]

private theorem mem_diagnostics_begin {sheet : Sheet} {entries : List JournalEntry} {d : Diagnostic}
    (reported : .diagnostic d ∈ entries) : d ∈ (begin site sheet entries).diagnostics :=
  List.mem_filterMap.mpr ⟨_, reported, rfl⟩

/-- Lists land at the same places by any two paths of a sheet, where their rules, and those of the lists
that they refer to, are straight ones of the sheet by both of them. What a plain pattern finds lands at
what is left of its place below the root, unless the root begins with `.` and goes on by names. -/
theorem destinations_of_spellings (tree : disk.IsTree) (storage : site.storage = .onDisk disk)
    (working : disk.locate disk.workingDirectory = .ok disk.start) {path other : Path} {place : Place}
    (located : disk.locate path = .ok place) (locatedOther : disk.locate other = .ok place)
    (loaded : load site path = .ok session) (loadedOther : load site other = .ok second)
    (short : ∀ d ∈ session.diagnostics, ¬ d.IsOfLongImport)
    (shortOther : ∀ d ∈ second.diagnostics, ¬ d.IsOfLongImport) {names : List String}
    (straight : session.site.AreStraight disk path names)
    (straightOther : second.site.AreStraight disk other names) :
    destinations (second.fileLists names).1 = destinations (session.fileLists names).1 ∧
      ∀ (recipe : Recipe) (pattern : String) (base : Place),
        '\\' ∉ recipe.root.value.text.toList → disk.locate recipe.root.value = .ok base →
        (Path.mk pattern).isAbsolute = false →
        Glob.ArePlain (Path.segments (Glob.dropHere pattern.toList)) →
        ∀ entry ∈ (session.site.found recipe pattern).value, ∃ below,
          disk.locate entry.source = .ok (base ++ below) ∧
            (entry.destination.components = below.map .name ↔
              (recipe.root.value.anchor = some .current →
                recipe.root.value.components.filter (·.isName) = [])) := by
  obtain ⟨sheet, entries, own, rfl⟩ := exists_sheet_of_load loaded
  obtain ⟨copy, others, ownOther, rfl⟩ := exists_sheet_of_load loadedOther
  have stored : (begin site sheet entries).site.storage = .onDisk disk := storage
  refine ⟨?_, fun recipe pattern base literal there relative plain =>
    Site.lands_below_iff tree stored literal there relative plain⟩
  rw [storage] at own ownOther
  have copies : List.Forall₂ (Rule.IsCopyOn disk) sheet.rules copy.rules :=
    Sheet.load_copies tree located locatedOther own ownOther
      (fun d reported => short d (mem_diagnostics_begin reported))
      (fun d reported => shortOther d (mem_diagnostics_begin reported))
  have alike : Site.Respelled ((begin site sheet entries).site.respelling path other)
      ((begin site sheet entries).site.Asks names) (sheet.parameters Site.listRule)
      (begin site sheet entries).site (begin site copy others).site :=
    Site.respelled_of_copies tree stored working copies straight straightOther
  have slots := Slots.Respelled.declare ((begin site sheet entries).site.respelling path other)
    ((begin site sheet entries).site.Asks names) (sheet.parameters Site.listRule)
  refine destinations_fileLists alike ?_ fun name member _ => ⟨name, member, .refl⟩
  have declared := Sheet.parameters_of_copies (copies.imp fun _ _ own => own.isCopy) Site.listRule
  rw [begin, begin, declared]
  exact slots

/-- The text of a sheet for the libraries of a directory beside it. -/
def librariesText : String :=
  "files[x]\x7broot:out;include:'*.dll';\x7d"

/-- A directory with that sheet, and a library below it. -/
def shelved : Disk where
  nodes :=
    [(["w"], .directory), (["w", "out"], .directory), (["w", "out", "a.dll"], .file .empty),
     (["w", "p"], .file librariesText.toUTF8)]
  start := ["w"]
  workingDirectory := ⟨"/w"⟩

private theorem isTree_shelved : shelved.IsTree := by
  refine .of_nodes (by decide) ?_
  simp only [shelved, List.forall_mem_cons]
  refine ⟨?_, ?_, ?_, ?_, nofun⟩ <;> refine ⟨by decide, rfl⟩

/-- The rule of that sheet, in a file. -/
def librariesRule (file : Path) : Rule where
  name := "files"
  parameter := some "x"
  location := ⟨some file, 1, 1⟩
  properties :=
    [⟨"root", ["out"], ⟨some file, 1, 10⟩⟩, ⟨"include", ["*.dll"], ⟨some file, 1, 19⟩⟩]

/-- A path of the sheet, by which its text reads as that rule. -/
structure IsOfLibraries (path : Path) : Prop where
  leads : shelved.locate path = .ok ["w", "p"]
  reads : Statement.ofText librariesText (some path) = ([.rule (librariesRule path)], [])

/-- The place of that sheet. -/
def shelf : Site where
  scope := { sheet := {} }
  storage := .onDisk shelved

/-- The sessions on that sheet. -/
def libraries (path : Path) : Session :=
  begin shelf { rules := [librariesRule path], sources := [path] } [.note s!"loaded {path.text}"]

theorem load_libraries {path : Path} (own : IsOfLibraries path) :
    load shelf path = .ok (libraries path) := by
  have read : (Storage.onDisk shelved).read path = .ok librariesText :=
    Disk.read_of_file own.leads rfl
  have events : Loading.ofFile (.onDisk shelved) path librariesText =
      [.opened path, .rule (librariesRule path)] := by
    rw [Loading.ofFile, own.reads]
    dsimp only
    rw [Loading.follow, Loading.follow]
    rfl
  rw [load, Sheet.load, shelf, read]
  dsimp only
  rw [events]
  rfl

private theorem short_libraries {path : Path} :
    ∀ d ∈ (libraries path).diagnostics, ¬ d.IsOfLongImport :=
  nofun

def librariesRoot (path : Path) : Path :=
  ((libraries path).site.baseDirectory (librariesRule path).location).join ⟨"out"⟩

theorem root_libraries (path : Path) :
    ((libraries path).site.root (librariesRule path)).value = librariesRoot path := by
  have root : ((librariesRule path).view "root").value? = some "out" := rfl
  rw [Site.root, root]
  dsimp only
  rw [Site.value_expand (by decide), if_neg (by decide)]
  rfl

private theorem isStraight_libraries {path : Path} (keeps : shelved.Keeps (librariesRoot path)) :
    (libraries path).site.AreStraight shelved path ["x"] := by
  intro name _ listed _ rule selected
  obtain rfl : rule = librariesRule path :=
    List.mem_singleton.mp (List.mem_filter.mp selected).1
  have token {token : Reported String}
      (member : token ∈ ((libraries path).site.recipe (librariesRule path)).includes) :
      token.value = "*.dll" := by
    obtain ⟨raw, own, rfl⟩ := List.mem_map.mp member
    obtain rfl : raw = "*.dll" := List.mem_singleton.mp own
    exact Site.value_expand (by decide) _
  refine ⟨rfl, ⟨"out", rfl, ?_⟩, ?_, fun _ member _ => ?_, nofun⟩
  · rw [Site.value_expand (by decide)]
    decide
  · rw [root_libraries]
    exact keeps
  · rw [token member]
    decide +kernel

private theorem keeps_shelved {root : Path} (direct : root.IsDirect) (admitted : Disk.Admits root)
    (located : shelved.locate root = .ok ["w", "out"]) (fits : shelved.Fits root.trail ["w", "out"]) :
    shelved.Keeps root where
  direct
  admitted
  fits place there := by
    rw [located] at there
    cases there
    exact fits

theorem destinations_libraries :
    ∃ session second,
      load shelf ⟨"p"⟩ = .ok session ∧
      load shelf ⟨"../w/p"⟩ = .ok second ∧
      destinations (second.fileLists ["x"]).1 = destinations (session.fileLists ["x"]).1 := by
  have own : IsOfLibraries ⟨"p"⟩ := ⟨by decide +kernel, by decide +kernel⟩
  have other : IsOfLibraries ⟨"../w/p"⟩ := ⟨by decide +kernel, by decide +kernel⟩
  have straight : (libraries ⟨"p"⟩).site.AreStraight shelved ⟨"p"⟩ ["x"] := by
    have root : librariesRoot ⟨"p"⟩ = ⟨"/w/out"⟩ := by decide +kernel
    refine isStraight_libraries (root ▸ keeps_shelved ⟨by decide, .inr ?_⟩ ?_ ?_ ?_) <;>
      decide +kernel
  have straightOther : (libraries ⟨"../w/p"⟩).site.AreStraight shelved ⟨"../w/p"⟩ ["x"] := by
    have root : librariesRoot ⟨"../w/p"⟩ = ⟨"../w/out"⟩ := by decide +kernel
    refine isStraight_libraries (root ▸ keeps_shelved ⟨by decide, .inr ?_⟩ ?_ ?_ ?_) <;>
      decide +kernel
  refine ⟨_, _, load_libraries own, load_libraries other, ?_⟩
  exact (destinations_of_spellings isTree_shelved rfl (by decide +kernel) own.leads other.leads
    (load_libraries own) (load_libraries other) short_libraries short_libraries straight
    straightOther).1

/-- The list of the sheet holds the one file that its pattern finds. -/
theorem fileList_libraries {path source : Path}
    (globbed : shelved.glob (librariesRoot path) "*.dll" = .ok [source]) :
    ((libraries path).fileList "x").1 = some [Entry.below (librariesRoot path) source] := by
  obtain ⟨making, site, own, start, resolved⟩ :
      ∃ making : Making, making.site = (libraries path).site ∧
        making.recipe = (libraries path).site.recipe (librariesRule path) ∧
        making.start = (libraries path).assembly ∧
        ((libraries path).fileList "x").1 = some making.entries :=
    Site.resolve_eq rfl rfl
  let token := (libraries path).site.expand "*.dll" (some (librariesRule path).location)
  have includes : making.recipe.includes = [token] := by rw [own]; rfl
  have value : token.value = "*.dll" := Site.value_expand (by decide) _
  have found : ((libraries path).site.found making.recipe "*.dll").value =
      [Entry.below (librariesRoot path) source] := by
    have root : making.recipe.root.value = librariesRoot path := own ▸ root_libraries path
    have globbed : (libraries path).site.storage.glob (librariesRoot path) "*.dll" = .ok [source] :=
      globbed
    rw [Site.found, root, globbed]
    rfl
  have patterns : making.ArePatterns making.recipe.includes := by
    rw [Making.ArePatterns, includes, start, List.forall_mem_singleton, value]
    rfl
  have excludes : making.recipe.excludes = [] := by rw [own]; rfl
  have policy : making.recipe.policy.value = .keep := by rw [own]; rfl
  have destination : making.recipe.destination.value = "" := by rw [own]; rfl
  have entries : making.entries = Entry.place "" [Entry.below (librariesRoot path) source] := by
    have left : (making.excluded making.recipe.excludes).1 =
        [Entry.below (librariesRoot path) source] := by
      have all : (making.excluded []).1 = (making.included making.recipe.includes).1 := rfl
      rw [excludes, all, making.included_eq_gather (List.prefix_refl _) patterns, includes,
        List.flatMap_singleton, site, value, found]
      rfl
    rw [Making.entries, left, policy, destination, Entry.trim_keep]
  rw [resolved, entries, Entry.place_empty]

private theorem fst_fileLists_singleton (session : Session) (name : String) :
    (session.fileLists [name]).1 = ((session.fileList name).1.map (name, ·)).toList :=
  List.append_nil _

private theorem destinations_found {path source : Path}
    (globbed : shelved.glob (librariesRoot path) "*.dll" = .ok [source]) :
    destinations ((libraries path).fileLists ["x"]).1 =
      [("x", [Destination.relative source (librariesRoot path)])] := by
  rw [fst_fileLists_singleton, fileList_libraries globbed, Entry.below]
  simp only [Option.map_some, Option.toList_some, destinations, List.map_cons, List.map_nil]

/-- A file lands below its root by one path of the sheet, and below the directory of the sheet by
another. -/
theorem destinations_apart :
    ∃ session second, load shelf ⟨"p"⟩ = .ok session ∧ load shelf ⟨"./p"⟩ = .ok second ∧
      destinations (session.fileLists ["x"]).1 = [("x", [⟨"a.dll"⟩])] ∧
      destinations (second.fileLists ["x"]).1 = [("x", [⟨"out/a.dll"⟩])] := by
  have own : IsOfLibraries ⟨"p"⟩ := ⟨by decide +kernel, by decide +kernel⟩
  have dotted : IsOfLibraries ⟨"./p"⟩ := ⟨by decide +kernel, by decide +kernel⟩
  refine ⟨_, _, load_libraries own, load_libraries dotted, ?_, ?_⟩
  · have globbed : shelved.glob (librariesRoot ⟨"p"⟩) "*.dll" = .ok [⟨"/w/out/a.dll"⟩] := by
      decide +kernel
    rw [destinations_found globbed]
    decide +kernel
  · have globbed : shelved.glob (librariesRoot ⟨"./p"⟩) "*.dll" = .ok [⟨"out/a.dll"⟩] := by
      decide +kernel
    rw [destinations_found globbed]
    decide +kernel

end Session

end PackageSheet
