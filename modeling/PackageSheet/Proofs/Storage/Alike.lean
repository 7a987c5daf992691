import PackageSheet.Proofs.Storage.Reach

namespace PackageSheet

open Glob

namespace Path

/-- A root that a search keeps in the paths it finds: it has no backslash, and does not begin with
`.`, unless it is `.` itself. -/
structure IsDirect (root : Path) : Prop where
  plain : '\\' ∉ root.text.toList
  kept : rootText root = ['.'] ∨ root.anchor ≠ some .current

private theorem before_self (c : Component) : c.before c = false := by
  cases c <;> simp [Component.before, Component.rank]

private theorem componentsBefore_append (front first second : List Component) :
    componentsBefore (front ++ first) (front ++ second) = componentsBefore first second := by
  induction front with
  | nil => rfl
  | cons c front ih => simp [componentsBefore, before_self, ih]

end Path

namespace Glob

def rootSteps (root : Path) : List Step :=
  (frontSegments (rootText root)).map fun segment => ⟨escape segment, segment.map exactly⟩

private theorem isExact_rootSteps (root : Path) :
    List.Forall₂ Step.IsExact (rootSteps root) (frontSegments (rootText root)) := by
  refine forall₂_isExact ?_ ?_
  · rw [rootSteps, List.map_map]
    rfl
  · intro step member
    obtain ⟨segment, -, rfl⟩ := List.mem_map.mp member
    exact compile_escape segment

variable {root : Path} {pattern : String} {steps : List Step}

/-- The components of a plain pattern do not end in an empty one. -/
theorem ArePlain.open_end {text : List Char} (plain : ArePlain (Path.segments text))
    (front : List Char) : (front ++ '/' :: text).getLast? ≠ some '/' := by
  rw [List.getLast?_append, List.getLast?_cons, Option.some_or]
  intro slash
  have last : (Path.segments text).getLast? = some [] := by
    cases ends : text.getLast? with
    | none =>
      rw [List.getLast?_eq_none_iff.mp ends]
      rfl
    | some c =>
      rw [ends] at slash
      obtain rfl : c = '/' := Option.some.inj slash
      obtain ⟨cs, rfl⟩ := List.getLast?_eq_some_iff.mp ends
      rw [Path.segments_slash, List.getLast?_append]
      rfl
  exact plain.1 (List.mem_of_getLast? last)

/-- The steps of a pattern by itself. -/
structure StepsOf (pattern : String) (steps : List Step) : Prop where
  whole : ∃ inner, compile (dropHere pattern.toList) = .ok inner
  texts : steps.map (·.text) = Path.segments (dropHere pattern.toList)
  compiled : ∀ step ∈ steps, step.IsCompiled

theorem StepsOf.ne_nil (own : StepsOf pattern steps) : steps ≠ [] := by
  rintro rfl
  exact Path.segments_ne_nil _ own.texts.symm

/-- The steps of a plain pattern below a root are those for the root and its own. -/
theorem steps_rooted (root : Path) (relative : (Path.mk pattern).isAbsolute = false)
    (plain : ArePlain (Path.segments (dropHere pattern.toList))) (own : StepsOf pattern steps) :
    Glob.steps (rooted root pattern).toList = .ok (rootSteps root ++ steps) := by
  obtain ⟨⟨inner, whole⟩, texts, compiled⟩ := own
  rw [toList_rooted relative, steps_eq_ok_iff]
  refine ⟨compile_above _ whole, ?_, List.forall_mem_append.mpr ⟨?_, compiled⟩⟩
  · rw [componentTexts_below (plain.open_end _), frontSegments_escape, List.map_append, texts,
      rootSteps, List.map_map]
    rfl
  · intro step member
    obtain ⟨segment, -, rfl⟩ := List.mem_map.mp member
    exact compile_escape segment

theorem exists_stepsOf (relative : (Path.mk pattern).isAbsolute = false)
    (plain : ArePlain (Path.segments (dropHere pattern.toList)))
    (found : Glob.steps (rooted root pattern).toList = .ok steps) :
    ∃ own, StepsOf pattern own := by
  obtain ⟨⟨pieces, whole⟩, -, -⟩ := steps_eq_ok_iff.mp found
  rw [toList_rooted relative] at found whole
  obtain ⟨inner, compiles, -⟩ := compile_below whole
  obtain ⟨front, back, -, -, texts, compiled⟩ := exists_steps_below found (plain.open_end _)
  exact ⟨back, ⟨inner, compiles⟩, texts, compiled⟩

end Glob

namespace Disk

variable {disk : Disk} {root : Path} {place names : Place} {pattern : String} {steps : List Step}

/-- Whether a place has a file. -/
def hasFile (disk : Disk) (place : Place) : Bool :=
  match disk.node? place with
  | some (.file _) => true
  | _ => false

def namesLe (one other : Place) : Bool :=
  !Path.componentsBefore (other.map .name) (one.map .name)

/-- The names by which steps lead from a place to files, in the order of paths. -/
def filesFrom (disk : Disk) (steps : List Step) (place : Place) : List Place :=
  ((disk.reached steps place).filter fun names => disk.hasFile (place ++ names)).mergeSort namesLe

private theorem mem_below_append {others : Place} (below : names ∈ disk.below place)
    (further : others ∈ disk.reached steps (place ++ names))
    (behind : steps ≠ [] → others ∈ disk.reached steps (place ++ names) →
      others ∈ disk.below (place ++ names)) : names ++ others ∈ disk.below place := by
  by_cases last : steps = []
  · subst last
    rw [List.mem_singleton.mp further, List.append_nil]
    exact below
  · obtain ⟨filled, -⟩ := mem_below_iff.mp below
    obtain ⟨-, listed⟩ := mem_below_iff.mp (behind last further)
    exact mem_below_iff.mpr
      ⟨List.append_ne_nil_of_left_ne_nil filled _, by rwa [← List.append_assoc]⟩

theorem mem_below_of_reached (some : steps ≠ []) (member : names ∈ disk.reached steps place) :
    names ∈ disk.below place := by
  fun_induction reached disk steps place generalizing names with
  | case1 place => exact absurd rfl some
  | case2 step place deep => cases member
  | case3 step place deep next rest deeper ih => exact ih (List.cons_ne_nil _ _) member
  | case4 step place deep next rest plain ih =>
    obtain ⟨first, below, later⟩ := List.mem_flatMap.mp member
    split at later
    · obtain ⟨others, further, rfl⟩ := List.mem_map.mp later
      exact mem_below_append below further (ih first)
    · cases later
  | case5 step steps place plain ih =>
    obtain ⟨name, listed, later⟩ := List.mem_flatMap.mp member
    split at later
    · obtain ⟨others, further, rfl⟩ := List.mem_map.mp later
      exact mem_below_append (mem_below_singleton listed) further (ih name)
    · cases later

private theorem isFile_of_locate {path : Path} (located : disk.locate path = .ok place) :
    disk.isFile path = disk.hasFile place := by
  rw [isFile, nodeAt?, located]
  rfl

/-- What is found below a root by the steps of a plain pattern is spelled behind the trail of the root,
by the names that lead to files from the place of the root. -/
theorem sorted_search (tree : disk.IsTree) (flat : Step.AreFlat steps) (some : steps ≠ [])
    {path : Path} (leads : disk.LeadsTo path place) :
    ((disk.search steps path).filter disk.isFile).mergeSort Path.le =
      (disk.filesFrom steps place).map (·.foldl child path) := by
  have behind (names : Place) (member : names ∈ disk.reached steps place) :=
    mem_below_of_reached some member
  have kept : (disk.reached steps place).filter (disk.isFile ∘ (·.foldl child path)) =
      (disk.reached steps place).filter fun names => disk.hasFile (place ++ names) := by
    refine List.filter_congr fun names member => ?_
    exact isFile_of_locate (leads.behind tree (behind names member)).located
  rw [search_eq_reached tree flat leads, List.filter_map, kept, filesFrom, List.map_mergeSort]
  intro one oneMember other otherMember
  have components {names : Place} (member : names ∈ (disk.reached steps place).filter fun names =>
      disk.hasFile (place ++ names)) :
      (names.foldl child path).components = trailSteps path ++ names.map .name := by
    have below := behind names (List.mem_filter.mp member).1
    refine leads.trail.components_foldl (fun name own => ?_) (mem_below_iff.mp below).1
    obtain ⟨node, inside, whole⟩ := List.mem_map.mp (mem_below_iff.mp below).2
    exact tree.named name ⟨node, inside, whole ▸ List.mem_append_right _ own⟩
  rw [namesLe, Path.le, components oneMember, components otherMember, Path.componentsBefore_append]

/-- What a plain pattern finds below a root that a search keeps are the names by which its steps lead
to files from the place of the root, behind the trail of the root. -/
theorem glob_eq (tree : disk.IsTree) (direct : root.IsDirect) (located : disk.locate root = .ok place)
    (fits : disk.Fits root.trail place) (relative : (Path.mk pattern).isAbsolute = false)
    (plain : ArePlain (Path.segments (dropHere pattern.toList))) (own : StepsOf pattern steps) :
    disk.glob root pattern = .ok ((disk.filesFrom steps place).map (·.foldl child root.trail)) := by
  have filled := (locate_eq_ok_iff.mp located).1.2.1
  have follow := Path.mayFollowAll_frontNames direct.plain filled direct.kept
  have trail := Path.isTrail_trail follow
  have leads : disk.LeadsTo root.trail place :=
    ⟨trail, Path.locate_trail direct.plain filled located follow fits.1, fits⟩
  obtain ⟨here, start, segments⟩ := Path.exists_leads direct.plain filled located
  have openEnd : (rooted root pattern).toList.getLast? ≠ some '/' := by
    rw [toList_rooted relative]
    exact plain.open_end _
  rw [glob, steps_rooted root relative plain own]
  dsimp only [Except.map]
  rw [if_neg openEnd, Path.origin_eq relative,
    search_front tree (isExact_rootSteps root) (Path.isTrail_origin root) follow fits.1 start segments,
    ← sorted_search tree (plain.areFlat own.texts own.compiled) own.ne_nil leads]
  rfl

end Disk

end PackageSheet
