import PackageSheet.Proofs.Storage.Found
import PackageSheet.Storage.Basic

/-!
Where excluding a pattern takes out all that it finds (`Storage.Undoes`). It does in memory, where
the paths are spelled below the root with names alone (`undoes_inMemory`), and on a disk, where no
component of the pattern is empty and, below a root, none in front of the last stands for `.` or
`..` (`undoes_onDisk`).
-/

namespace PackageSheet

open Glob

/-- Excluding a pattern takes out all that it finds below a root. -/
def Storage.Undoes (storage : Storage) (root : Path) (pattern : String) : Prop :=
  ∀ files, storage.glob root pattern = .ok files →
    ∃ exclusion, Exclusion.compile pattern = .ok exclusion ∧
      ∀ source ∈ files, exclusion.excludes source = true

variable {root source path last : Path} {pattern : String} {names : List String}

theorem compile_of_rooted (relative : (Path.mk pattern).isAbsolute = false) {pieces : List Piece}
    (compiled : Glob.compile (rooted root pattern).toList = .ok pieces) :
    ∃ inner, Glob.compile (dropHere pattern.toList) = .ok inner ∧
      Exclusion.compile pattern = .ok ⟨inner, false⟩ ∧
      ∀ cs, isMatch pieces cs = true ↔
        ∃ rest, cs = rootText root ++ '/' :: rest ∧ isMatch inner rest = true := by
  rw [toList_rooted relative] at compiled
  obtain ⟨inner, own, below⟩ := compile_below compiled
  refine ⟨inner, own, ?_, below⟩
  simp [Exclusion.compile, relative, own, Except.map]

theorem compile_of_isAbsolute (absolute : (Path.mk pattern).isAbsolute = true) {pieces : List Piece}
    (compiled : Glob.compile (rooted root pattern).toList = .ok pieces) :
    Glob.compile pattern.toList = .ok pieces ∧
      Exclusion.compile pattern = .ok ⟨pieces, true⟩ := by
  rw [rooted, if_pos absolute] at compiled
  refine ⟨compiled, ?_⟩
  simp [Exclusion.compile, absolute, compiled, Except.map]

/-! ### Memory -/

/-- The paths of the files below a root go on there with names alone, with a slash between them. -/
def Memory.NamedBelow (memory : Memory) (root : Path) : Prop :=
  ∀ file ∈ memory.files, ∀ rest, file.1.text.toList = rootText root ++ '/' :: rest →
    ∀ segment ∈ Path.segments rest, Path.IsName segment

/-- In memory, all that a pattern finds is excluded by it, if the pattern is absolute or the paths
go on below the root with names alone. -/
theorem undoes_inMemory {memory : Memory}
    (spelled : (Path.mk pattern).isAbsolute = true ∨ memory.NamedBelow root) :
    (Storage.inMemory memory).Undoes root pattern := by
  intro files found
  obtain ⟨pieces, compiled, rfl⟩ := exists_of_map_eq_ok found
  by_cases absolute : (Path.mk pattern).isAbsolute = true
  · obtain ⟨-, exclusion⟩ := compile_of_isAbsolute absolute compiled
    refine ⟨_, exclusion, fun source member => ?_⟩
    have matched := (List.mem_filter.mp member).2
    simpa [Exclusion.excludes] using matched
  · have relative : (Path.mk pattern).isAbsolute = false := by simpa using absolute
    obtain ⟨inner, -, exclusion, below⟩ := compile_of_rooted relative compiled
    refine ⟨_, exclusion, fun source member => ?_⟩
    obtain ⟨listed, matched⟩ := List.mem_filter.mp member
    obtain ⟨file, held, rfl⟩ := List.mem_map.mp listed
    obtain ⟨rest, whole, matched⟩ := (below _).mp matched
    have named := (spelled.resolve_left absolute) file held rest whole
    have text : file.1 = ⟨String.ofList (rootText root ++ '/' :: rest)⟩ := by
      rw [Path.mk.injEq, ← String.toList_inj, String.toList_ofList, whole]
    let last := (Path.segments rest).map String.ofList
    have toLists : last.map String.toList = Path.segments rest := by
      simp [last, Function.comp_def]
    have components := Path.components_slash (rootText root) rest
    rw [← text, Path.steps_of_names named] at components
    have bare : ∀ name ∈ last, Path.IsBare name.toList := by
      intro name member
      obtain ⟨segment, own, rfl⟩ := List.mem_map.mp member
      rw [String.toList_ofList]
      exact (named segment own).isBare
    have names : last.map Component.name = (Path.segments rest).map fun s => .name (String.ofList s)
      := by simp [last, Function.comp_def]
    rw [← names] at components
    refine Exclusion.excludes_of_names rfl components ?_ bare ?_
    · simpa [last] using Path.segments_ne_nil rest
    · rw [toLists, Path.intercalate_segments]
      exact matched

/-! ### Disks -/

namespace Disk

variable {disk : Disk}

private theorem undoes_of_relative (tree : disk.IsTree)
    (relative : (Path.mk pattern).isAbsolute = false)
    (plain : ArePlain (Path.segments (dropHere pattern.toList))) :
    (Storage.onDisk disk).Undoes root pattern := by
  intro files globbed
  obtain ⟨steps, found, -⟩ := exists_of_map_eq_ok globbed
  obtain ⟨⟨pieces, whole⟩, -, -⟩ := steps_eq_ok_iff.mp found
  obtain ⟨inner, own, exclusion, -⟩ := compile_of_rooted relative whole
  refine ⟨_, exclusion, fun source member => ?_⟩
  obtain ⟨-, follow, names, rfl, some, good, matched⟩ :=
    exists_names tree relative plain globbed own source member
  obtain ⟨trail, -⟩ := (Path.isTrail_origin root).foldl_child follow
  exact Exclusion.excludes_of_names rfl (trail.components_foldl good some) some
    (fun name member => (good name member).isBare) matched

private theorem undoes_of_isAbsolute (tree : disk.IsTree)
    (absolute : (Path.mk pattern).isAbsolute = true) (filled : [] ∉ componentTexts pattern.toList) :
    (Storage.onDisk disk).Undoes root pattern := by
  intro files globbed
  obtain ⟨steps, found, rfl⟩ := exists_of_map_eq_ok globbed
  obtain ⟨⟨pieces, whole⟩, -, -⟩ := steps_eq_ok_iff.mp found
  obtain ⟨own, exclusion⟩ := compile_of_isAbsolute absolute whole
  refine ⟨_, exclusion, fun source member => ?_⟩
  dsimp only at member
  rw [rooted, if_pos absolute] at found member
  split at member
  · cases member
  · rename_i openEnd
    obtain ⟨text, anchored⟩ := Path.isAbsolute_iff_text.mp absolute
    rw [anchored] at own openEnd filled found
    obtain ⟨-, texts, compiled⟩ := steps_eq_ok_iff.mp found
    rw [componentTexts_slash openEnd] at texts filled
    have some : steps ≠ [] := by
      rintro rfl
      exact Path.segments_ne_nil text texts.symm
    have bare (step : Step) (member : step ∈ steps) : '/' ∉ step.text := by
      have inside : step.text ∈ Path.segments text := texts ▸ List.mem_map_of_mem member
      exact Path.not_mem_of_mem_segments inside
    have searched := (List.mem_filter.mp (List.mem_mergeSort.mp member)).1
    obtain ⟨names, spells, walked⟩ := mem_search compiled searched
    have good : ∀ name ∈ names, Path.IsBare name.toList := by
      refine spells.forall_names ?_ ?_ fun name known => (tree.named name known).isBare
      · intro step member _
        rw [String.toList_ofList]
        refine ⟨fun none => filled ?_, bare step member⟩
        rw [← texts, ← none]
        exact List.mem_map_of_mem member
      · intro step _ name special
        exact Step.isBare_of_mem_specials special
    have spelled := walked.eq_foldl_join good rfl
    obtain ⟨ps, reads, matched⟩ := spells.reads some compiled bare
    rw [texts, Path.intercalate_segments] at reads
    have same : pieces = merged (.literal '/' :: ps) := by
      have both := own.symm.trans (compile_eq_ok_iff.mpr ⟨_, reads.slash, rfl⟩)
      exact Except.ok.inj both
    have sourceText : source.text.toList = '/' :: ['/'].intercalate (names.map String.toList) := by
      rw [spelled, Path.text_foldl_join good (.inr rfl)]
      rfl
    unfold Exclusion.excludes
    rw [if_pos rfl, same, isMatch_merged, sourceText]
    exact isMatch_literal.mpr ⟨_, rfl, matched⟩

end Disk

/-- A pattern in which no component is empty and, below a root, none in front of the last stands for
`.` or `..`. -/
def Glob.IsPlain (pattern : String) : Prop :=
  if (Path.mk pattern).isAbsolute = true then [] ∉ componentTexts pattern.toList
  else ArePlain (Path.segments (dropHere pattern.toList))

instance (pattern : String) : Decidable (Glob.IsPlain pattern) :=
  inferInstanceAs (Decidable (if (Path.mk pattern).isAbsolute = true then
    [] ∉ componentTexts pattern.toList else ArePlain (Path.segments (dropHere pattern.toList))))

/-- In a tree on a disk, all that a plain pattern finds is excluded by it. -/
theorem undoes_onDisk {disk : Disk} (tree : disk.IsTree) (plain : Glob.IsPlain pattern) :
    (Storage.onDisk disk).Undoes root pattern := by
  unfold Glob.IsPlain at plain
  split at plain
  · rename_i absolute
    exact Disk.undoes_of_isAbsolute tree absolute plain
  · rename_i relative
    exact Disk.undoes_of_relative tree (Bool.not_eq_true _ ▸ relative) plain

/-- Where a pattern takes back what it finds: in memory if it is absolute or the files go on below
the root with names alone, and in a tree on a disk if it is plain. -/
inductive Storage.TakesBack : Storage → Path → String → Prop where
  | inMemory {memory : Memory} {root : Path} {pattern : String}
      (spelled : (Path.mk pattern).isAbsolute = true ∨ memory.NamedBelow root) :
      TakesBack (.inMemory memory) root pattern
  | onDisk {disk : Disk} {root : Path} {pattern : String} (tree : disk.IsTree)
      (plain : Glob.IsPlain pattern) : TakesBack (.onDisk disk) root pattern

theorem Storage.TakesBack.undoes {storage : Storage} (back : storage.TakesBack root pattern) :
    storage.Undoes root pattern := by
  cases back with
  | inMemory spelled => exact undoes_inMemory spelled
  | onDisk tree plain => exact undoes_onDisk tree plain

end PackageSheet
