import PackageSheet.Proofs.FileList.Alike
import PackageSheet.Proofs.FileList.Found
import PackageSheet.Proofs.Sheet.Copying

namespace PackageSheet

open Glob

namespace Site

variable {disk : Disk} {site : Site} {sheet : Sheet} {rule copy : Rule} {name : String}

theorem expand_of_copies (same : List.Forall₂ Rule.IsCopy site.scope.sheet.rules sheet.rules) :
    (site.withSheet sheet).expand = site.expand := by
  funext text location
  unfold expand withSheet
  simp only [Scope.expand_of_copies same]

theorem isCounterpart_recipe (same : List.Forall₂ Rule.IsCopy site.scope.sheet.rules sheet.rules)
    (own : rule.IsCopy copy) :
    Recipe.IsCounterpart (site.recipe rule) ((site.withSheet sheet).recipe copy) := by
  have expand := expand_of_copies same
  have tokens (property : String) :
      ((site.withSheet sheet).tokens copy property).map (·.value) =
        (site.tokens rule property).map (·.value) := by
    unfold tokens
    rw [own.values_view, expand, List.map_map, List.map_map]
    rfl
  refine ⟨tokens "include", tokens "exclude", ?_, ?_⟩
  · unfold recipe policy
    dsimp only
    rw [own.value?_view, expand]
    cases (rule.view "trim-path").value? with
    | none => rfl
    | some raw =>
      have value : (site.expand raw (copy.view "trim-path").location).value =
          (site.expand raw (rule.view "trim-path").location).value := rfl
      dsimp only
      rw [value]
      cases TrimPolicy.ofText? (site.expand raw (rule.view "trim-path").location).value <;> rfl
  · unfold recipe destination
    dsimp only
    rw [own.value?_view, expand]
    cases (rule.view "destination").value? <;> rfl

theorem directory?_eq_parent? {location : Location} {file : Path}
    (placed : location.file = some file) : location.directory? = file.parent? := by
  rw [Location.directory?, placed]
  rfl

private theorem locate_baseDirectory (tree : disk.IsTree) (storage : site.storage = .onDisk disk)
    (working : disk.locate disk.workingDirectory = .ok disk.start) {location : Location} {file : Path}
    (placed : location.file = some file) {place : Place} {content : ByteArray}
    (located : disk.locate file = .ok place) (held : disk.node? place = some (.file content)) :
    disk.locate (site.baseDirectory location) = .ok place.dropLast := by
  obtain ⟨parent, found, -, above⟩ := Disk.exists_parent tree located held
  have empty : parent.text = "" ↔ parent.text.toList = [] := by
    rw [← String.toList_inj]
    rfl
  unfold baseDirectory
  rw [directory?_eq_parent? placed, found, storage]
  dsimp only [Storage.onDisk]
  simp only [empty]
  split at above
  · rename_i none
    rw [if_pos none, above, working]
  · rename_i some
    rw [if_neg some]
    exact above

/-- A rule makes its list from what is below a relative root that searches keep, by plain patterns, and
leaves out files by their names. Its tokens may also name other lists. -/
structure IsStraight (site : Site) (disk : Disk) (file : Path) (rule : Rule) : Prop where
  placed : rule.location.file = some file
  relative : ∃ raw, (rule.view "root").value? = some raw ∧
    (Path.mk (site.expand raw (some rule.location)).value).isAbsolute = false
  keeps : disk.Keeps (site.root rule).value
  includes : ∀ token ∈ (site.recipe rule).includes, site.recipes token.value = [] →
    (Path.mk token.value).isAbsolute = false ∧
      Glob.ArePlain (Path.segments (dropHere token.value.toList))
  excludes : ∀ token ∈ (site.recipe rule).excludes, site.recipes token.value = [] →
    IsNaming token.value

private theorem IsStraight.exists_root {file : Path} (straight : site.IsStraight disk file rule) :
    ∃ path : Path, path.isAbsolute = false ∧
      (site.root rule).value = (site.baseDirectory rule.location).join path ∧
      ∃ raw, (rule.view "root").value? = some raw ∧
        path = ⟨(site.expand raw (some rule.location)).value⟩ := by
  obtain ⟨raw, own, relative⟩ := straight.relative
  refine ⟨_, relative, ?_, raw, own, rfl⟩
  unfold root
  rw [own]
  dsimp only
  rw [relative]
  rfl

/-- The two spellings of the directory of a file, by two paths of the file. -/
def respelling (site : Site) (file other : Path) : Respelling where
  one := (site.baseDirectory { file := some file }).keptSteps
  other := (site.baseDirectory { file := some other }).keptSteps

private theorem baseDirectory_of_placed {location : Location} {file : Path}
    (placed : location.file = some file) :
    site.baseDirectory location = site.baseDirectory { file := some file } := by
  unfold baseDirectory
  rw [directory?_eq_parent? placed]
  rfl

private theorem rootRespelled_of_copies (tree : disk.IsTree) (storage : site.storage = .onDisk disk)
    (working : disk.locate disk.workingDirectory = .ok disk.start)
    (same : List.Forall₂ Rule.IsCopy site.scope.sheet.rules sheet.rules)
    (own : rule.IsCopyOn disk copy) {file other : Path} (straight : site.IsStraight disk file rule)
    (straightCopy : (site.withSheet sheet).IsStraight disk other copy) :
    RootRespelled (site.respelling file other) disk (site.root rule).value
      ((site.withSheet sheet).root copy).value := by
  obtain ⟨path, relative, root, raw, value, rfl⟩ := straight.exists_root
  obtain ⟨path', relative', root', raw', value', rfl⟩ := straightCopy.exists_root
  obtain ⟨first, second, place, content, placed, placedCopy, located, locatedCopy, held⟩ :=
    own.located
  have base := locate_baseDirectory tree storage working placed located held
  have baseCopy : disk.locate ((site.withSheet sheet).baseDirectory copy.location) =
      .ok place.dropLast :=
    locate_baseDirectory tree storage working placedCopy locatedCopy held
  rw [own.isCopy.value?_view, value] at value'
  cases value'
  rw [expand_of_copies same] at root' relative'
  have text : (site.expand raw (some copy.location)).value =
      (site.expand raw (some rule.location)).value := rfl
  rw [text] at root'
  have keeps := straight.keeps
  have keepsCopy := straightCopy.keeps
  rw [root] at keeps ⊢
  rw [root'] at keepsCopy ⊢
  refine ⟨keeps, keepsCopy, fun last => ?_,
    Path.steps (Path.segments (site.expand raw (some rule.location)).value.toList), ?_, ?_⟩
  · rw [Disk.locate_join_iff base relative keeps.admitted,
      Disk.locate_join_iff baseCopy relative keepsCopy.admitted]
  · rw [Path.keptSteps_join relative (Disk.locate_eq_ok_iff.mp base).1.2.1,
      baseDirectory_of_placed straight.placed, respelling]
  · have sameBase (location : Location) :
        (site.withSheet sheet).baseDirectory location = site.baseDirectory location := rfl
    rw [Path.keptSteps_join relative (Disk.locate_eq_ok_iff.mp baseCopy).1.2.1,
      baseDirectory_of_placed straightCopy.placed, sameBase, respelling]

theorem selected_of_copies
    (copies : List.Forall₂ (Rule.IsCopyOn disk) site.scope.sheet.rules sheet.rules) (name : String) :
    List.Forall₂ (Rule.IsCopyOn disk) (site.scope.sheet.selected listRule (some name))
      (sheet.selected listRule (some name)) := by
  refine List.rel_filter (fun rule copy own => ?_) copies
  dsimp only
  rw [show copy = _ from own.isCopy]
  rfl

theorem exists_of_recipes_eq
    (copies : List.Forall₂ (Rule.IsCopyOn disk) site.scope.sheet.rules sheet.rules)
    {recipe counterpart : Recipe} (own : site.recipes name = [recipe])
    (other : (site.withSheet sheet).recipes name = [counterpart]) :
    ∃ rule copy, rule ∈ site.scope.sheet.selected listRule (some name) ∧
      copy ∈ sheet.selected listRule (some name) ∧ rule.IsCopyOn disk copy ∧
      site.recipe rule = recipe ∧ (site.withSheet sheet).recipe copy = counterpart := by
  have each := selected_of_copies copies name
  obtain ⟨rule, single, rfl⟩ := List.map_eq_singleton_iff.mp own
  obtain ⟨copy, singleCopy, rfl⟩ := List.map_eq_singleton_iff.mp other
  have singleCopy : sheet.selected listRule (some name) = [copy] := singleCopy
  rw [single, singleCopy] at each ⊢
  cases each with
  | cons first _ =>
    exact ⟨rule, copy, List.mem_singleton_self _, List.mem_singleton_self _, first, rfl, rfl⟩

theorem length_recipes_of_copies
    (copies : List.Forall₂ (Rule.IsCopyOn disk) site.scope.sheet.rules sheet.rules) (name : String) :
    ((site.withSheet sheet).recipes name).length = (site.recipes name).length := by
  have each := (selected_of_copies copies name).length_eq
  rw [recipes, recipes, List.length_map, List.length_map]
  exact each.symm

private theorem refers_of_copies
    (copies : List.Forall₂ (Rule.IsCopyOn disk) site.scope.sheet.rules sheet.rules) {other : String}
    (edge : site.Refers name other) : (site.withSheet sheet).Refers name other := by
  have unique (name : String) (own : (site.only? name).isSome = true) :
      ((site.withSheet sheet).only? name).isSome = true := by
    rw [isSome_only?_iff] at own ⊢
    rw [length_recipes_of_copies copies, own]
  obtain ⟨⟨recipe, own, member⟩, last⟩ := edge
  refine ⟨?_, unique other last⟩
  obtain ⟨counterpart, found⟩ := Option.isSome_iff_exists.mp (unique name (by simp [own]))
  obtain ⟨rule, copy, -, -, isCopy, rfl, rfl⟩ :=
    exists_of_recipes_eq copies (only?_eq_some.mp own) (only?_eq_some.mp found)
  refine ⟨_, found, ?_⟩
  have counterpart := isCounterpart_recipe (copies.imp fun _ _ own => own.isCopy) isCopy.isCopy
  rw [Recipe.references, List.map_append] at member ⊢
  rwa [counterpart.includes, counterpart.excludes]

/-- All rules of some lists, and of those that they refer to, are straight ones in a file. -/
def AreStraight (site : Site) (disk : Disk) (file : Path) (names : List String) : Prop :=
  ∀ name ∈ names, ∀ listed, site.Reaches name listed →
    ∀ rule ∈ site.scope.sheet.selected listRule (some listed), site.IsStraight disk file rule

/-- The lists that some lists refer to, and those that do not have one rule. -/
def Asks (site : Site) (names : List String) (listed : String) : Prop :=
  (site.only? listed).isSome = true → ∃ name ∈ names, site.Reaches name listed

/-- Sites on copies of a sheet have respelled recipes for lists of straight rules. -/
theorem respelled_of_copies (tree : disk.IsTree) (storage : site.storage = .onDisk disk)
    (working : disk.locate disk.workingDirectory = .ok disk.start)
    (copies : List.Forall₂ (Rule.IsCopyOn disk) site.scope.sheet.rules sheet.rules)
    {names : List String} {file other : Path} (straight : site.AreStraight disk file names)
    (straightCopy : (site.withSheet sheet).AreStraight disk other names) :
    Site.Respelled (site.respelling file other) (site.Asks names)
      (site.scope.sheet.parameters listRule) site (site.withSheet sheet) where
  counts := length_recipes_of_copies copies
  recipes := by
    intro name recipe counterpart asked own other
    have unique : (site.only? name).isSome = true := by rw [only?_eq_some.mpr own]; rfl
    obtain ⟨first, listed, reached⟩ := asked unique
    have reachedCopy : (site.withSheet sheet).Reaches first name :=
      Relation.ReflTransGen.mono (fun _ _ => refers_of_copies copies) _ _ reached
    obtain ⟨rule, copy, selected, selectedCopy, isCopy, rfl, rfl⟩ :=
      exists_of_recipes_eq copies own other
    have same := copies.imp fun _ _ own => own.isCopy
    have ruleStraight := straight first listed name reached rule selected
    have copyStraight := straightCopy first listed name reachedCopy copy selectedCopy
    have roots := rootRespelled_of_copies tree storage working same isCopy ruleStraight copyStraight
    have undeclared {token : String} (absent : token ∉ site.scope.sheet.parameters listRule) :
        site.recipes token = [] := by
      rw [Sheet.mem_parameters, not_not] at absent
      rw [recipes, absent]
      rfl
    refine ⟨isCounterpart_recipe same isCopy.isCopy, ?_, ?_⟩
    · intro token member absent
      obtain ⟨included, inside, rfl⟩ := List.mem_map.mp member
      obtain ⟨relative, plain⟩ := ruleStraight.includes included inside (undeclared absent)
      exact found_respelled tree storage storage roots relative plain
    · intro token member absent source renamed respelled
      obtain ⟨excluded, inside, rfl⟩ := List.mem_map.mp member
      exact respelled.takes_eq (ruleStraight.excludes excluded inside (undeclared absent))
  closed := by
    intro name recipe asked own token member unique
    have found := only?_eq_some.mpr own
    obtain ⟨first, listed, reached⟩ := asked (by rw [found]; rfl)
    exact ⟨first, listed, reached.tail ⟨⟨recipe, found, member⟩, unique⟩⟩

end Site

end PackageSheet
