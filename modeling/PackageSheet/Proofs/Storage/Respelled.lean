import Mathlib.Data.List.Forall2
import PackageSheet.Proofs.Destination.Found
import PackageSheet.Proofs.Storage.Alike
import PackageSheet.Proofs.Storage.Directory

namespace PackageSheet

open Glob

namespace Path

variable {root base other : Path}

/-- The components of a path that searches keep. -/
def keptSteps (path : Path) : List Component :=
  path.components.filter (· != .current)

theorem filter_steps (segs : List (List Char)) :
    (steps segs).filter (· != .current) = steps segs := by
  refine List.filter_eq_self.mpr fun c member => ?_
  have moves := isMove_of_mem_steps member
  cases c with
  | current => cases moves
  | root | parent | name => rfl

private theorem components_join_steps (relative : other.isAbsolute = false)
    (filled : base.text.toList ≠ []) :
    (base.join other).components = base.components ++ steps (segments other.text.toList) := by
  have own : (⟨String.ofList base.text.toList⟩ : Path) = base := by rw [String.ofList_toList]
  rcases join_cases base relative with ⟨empty, -⟩ | ⟨cs, text, joined⟩ | ⟨-, -, joined⟩
  · exact absurd empty filled
  · have none : steps (segments []) = [] := by decide
    rw [joined, components_slash, ← own, text, components_slash, none, List.append_nil]
  · rw [joined, components_slash, if_neg filled, own]

/-- What searches keep of a relative path behind another one are its own steps. -/
theorem keptSteps_join (relative : other.isAbsolute = false) (filled : base.text.toList ≠ []) :
    (base.join other).keptSteps = base.keptSteps ++ steps (segments other.text.toList) := by
  rw [keptSteps, components_join_steps relative filled, List.filter_append, filter_steps]
  rfl

theorem trailSteps_eq_keptSteps (plain : '\\' ∉ root.text.toList) (filled : root.text.toList ≠ [])
    (follow : Disk.MayFollowAll root.origin root.frontNames) :
    Disk.trailSteps root.trail = root.keptSteps := by
  rw [trailSteps_trail plain filled follow, keptSteps, components_eq, List.filter_append, filter_steps]
  rcases root.anchor_cases with own | own | own <;> rw [own] <;> rfl

/-- A file below a root that searches keep lands at its names from there. -/
theorem IsDirect.relative_eq (direct : root.IsDirect) (filled : root.text.toList ≠ [])
    {names : List String} (named : ∀ name ∈ names, IsName name.toList) (some : names ≠ []) :
    Destination.relative (names.foldl Disk.child root.trail) root =
      ofComponents (names.map .name) := by
  have follow := mayFollowAll_frontNames direct.plain filled direct.kept
  have components := Destination.components_relative_trail direct.plain filled follow named some
  have front : (if root.anchor = .some .current then root.components.filter (·.isName) else []) = [] := by
    split
    · rename_i current
      have dot := direct.kept.resolve_right fun apart => apart current
      rw [components_eq_front direct.plain, current, dot]
      decide
    · rfl
  rw [front, List.nil_append] at components
  rw [← components, Destination.relative, components_ofComponents_names]

end Path

namespace Disk

variable {disk : Disk} {root other : Path} {place : Place} {pattern : String}

/-- A root that a disk looks up, and whose spelling searches keep for all that is below it. -/
structure Keeps (disk : Disk) (root : Path) : Prop where
  direct : root.IsDirect
  admitted : Admits root
  fits : ∀ place, disk.locate root = .ok place → disk.Fits root.trail place

private theorem startOf_eq_of_locate_origin (plain : '\\' ∉ root.text.toList)
    (filled : root.text.toList ≠ [])
    (located : disk.locate root.origin = .ok place) : disk.startOf root = place := by
  rw [startOf, Path.isAbsolute_eq plain filled]
  unfold Path.origin at located
  split
  · rename_i anchored
    rw [if_pos anchored] at located
    exact Except.ok.inj located
  · rename_i relative
    rw [if_neg relative] at located
    exact (locate_dot.mp located).2

private theorem locate_of_trail (direct : root.IsDirect) (admitted : Admits root)
    (located : disk.locate root.trail = .ok place) (directory : disk.node? place = some .directory) :
    disk.locate root = .ok place := by
  have filled := admitted.2.1
  have follow := Path.mayFollowAll_frontNames direct.plain filled direct.kept
  obtain ⟨here, start, leads⟩ := ((Path.isTrail_origin root).locate_foldl follow
    (locate_eq_ok_iff.mp located).1).mp located
  obtain ⟨count, whole⟩ := Path.exists_slashes direct.plain
  rw [Path.toList_frontNames, leads_iff_of_directory directory, Path.steps_frontSegments] at leads
  rw [locate_eq_ok_iff, leads_iff_of_directory directory, whole, Path.segments_slashes,
    Path.steps_slashes, startOf_eq_of_locate_origin direct.plain filled start]
  exact ⟨admitted, leads⟩

private theorem glob_eq_nil (tree : disk.IsTree) (direct : root.IsDirect) (admitted : Admits root)
    (missing : ∀ place, disk.locate root ≠ .ok place) (relative : (Path.mk pattern).isAbsolute = false)
    (plain : ArePlain (Path.segments (dropHere pattern.toList))) {files : List Path}
    (globbed : disk.glob root pattern = .ok files) : files = [] := by
  rw [List.eq_nil_iff_forall_not_mem]
  intro source member
  obtain ⟨steps, found, -⟩ := exists_of_map_eq_ok globbed
  obtain ⟨own, ⟨inner, compiled⟩, -, -⟩ := exists_stepsOf relative plain found
  obtain ⟨isFile, follow, names, rfl, some, named, -⟩ :=
    exists_names tree relative plain globbed compiled source member
  have trail := Path.isTrail_trail follow
  have behind := trail.mayFollowAll_of_names named
  obtain ⟨last, content, there, -⟩ := isFile_iff.mp isFile
  obtain ⟨here, start, leads⟩ :=
    (trail.locate_foldl behind (locate_eq_ok_iff.mp there).1).mp there
  refine missing here (locate_of_trail direct admitted start ?_)
  obtain ⟨name, rest, rfl⟩ := List.exists_cons_of_ne_nil some
  obtain ⟨next, followed, -⟩ := leads_cons.mp leads
  exact node?_of_follow followed

private theorem named_of_mem_filesFrom (tree : disk.IsTree) {steps : List Step} (some : steps ≠ [])
    {names : Place} (member : names ∈ disk.filesFrom steps place) :
    names ≠ [] ∧ ∀ name ∈ names, Path.IsName name.toList := by
  have reached := (List.mem_filter.mp (List.mem_mergeSort.mp member)).1
  obtain ⟨filled, listed⟩ := mem_below_iff.mp (mem_below_of_reached some reached)
  refine ⟨filled, fun name own => ?_⟩
  obtain ⟨node, inside, whole⟩ := List.mem_map.mp listed
  exact tree.named name ⟨node, inside, whole ▸ List.mem_append_right _ own⟩

/-- A plain pattern finds the same below two roots that searches keep and that lead to the same place,
if to any. -/
theorem glob_respelled (tree : disk.IsTree) (keeps : disk.Keeps root) (keepsOther : disk.Keeps other)
    (same : ∀ place, disk.locate root = .ok place ↔ disk.locate other = .ok place)
    (relative : (Path.mk pattern).isAbsolute = false)
    (plain : ArePlain (Path.segments (dropHere pattern.toList))) :
    ((∃ fault, disk.glob root pattern = .error fault) ∧
      ∃ fault, disk.glob other pattern = .error fault) ∨
    ∃ found : List Place,
      (∀ names ∈ found, names ≠ [] ∧ ∀ name ∈ names, Path.IsName name.toList) ∧
      disk.glob root pattern = .ok (found.map (·.foldl child root.trail)) ∧
      disk.glob other pattern = .ok (found.map (·.foldl child other.trail)) := by
  by_cases own : ∃ steps, StepsOf pattern steps
  · obtain ⟨steps, own⟩ := own
    refine .inr ?_
    by_cases located : ∃ place, disk.locate root = .ok place
    · obtain ⟨place, located⟩ := located
      have there := (same place).mp located
      exact ⟨disk.filesFrom steps place, fun _ => named_of_mem_filesFrom tree own.ne_nil,
        glob_eq tree keeps.direct located (keeps.fits place located) relative plain own,
        glob_eq tree keepsOther.direct there (keepsOther.fits place there) relative plain own⟩
    · have nowhere {root : Path} (keeps : disk.Keeps root)
          (missing : ¬ ∃ place, disk.locate root = .ok place) :
          disk.glob root pattern = .ok [] := by
        obtain ⟨files, globbed⟩ : ∃ files, disk.glob root pattern = .ok files := by
          rw [glob, steps_rooted root relative plain own]
          exact ⟨_, rfl⟩
        rw [globbed, glob_eq_nil tree keeps.direct keeps.admitted (not_exists.mp missing) relative
          plain globbed]
      refine ⟨[], List.forall_mem_nil _, nowhere keeps located, nowhere keepsOther ?_⟩
      rintro ⟨place, there⟩
      exact located ⟨place, (same place).mpr there⟩
  · have refused (root : Path) : ∃ fault, disk.glob root pattern = .error fault := by
      cases globbed : disk.glob root pattern with
      | error fault => exact ⟨fault, rfl⟩
      | ok files =>
        obtain ⟨steps, found, -⟩ := exists_of_map_eq_ok globbed
        exact absurd (exists_stepsOf relative plain found) own
    exact .inl ⟨refused root, refused other⟩

end Disk

end PackageSheet
