import PackageSheet.Proofs.Destination.Placement
import PackageSheet.Proofs.Storage.Found

namespace PackageSheet

open Glob

variable {root : Path} {pattern : String} {disk : Disk} {place : Place}

/-- A path that is spelled behind the trail of a root by names lands at these names, behind those of
the root if it begins with `.`. -/
theorem Destination.components_relative_trail (plain : '\\' ∉ root.text.toList)
    (filled : root.text.toList ≠ []) (follow : Disk.MayFollowAll root.origin root.frontNames)
    {names : List String} (named : ∀ name ∈ names, Path.IsName name.toList) (some : names ≠ []) :
    (relative (names.foldl Disk.child root.trail) root).components =
      (if root.anchor = .some .current then root.components.filter (·.isName) else []) ++
        names.map .name := by
  have components := (Path.isTrail_trail follow).components_foldl named some
  rw [Path.trailSteps_trail plain filled follow] at components
  have all : (names.map Component.name).filter (·.isName) = names.map .name :=
    List.filter_eq_self.mpr (List.forall_mem_map.mpr fun _ _ => rfl)
  have steps := Path.components_eq_front plain
  rw [components_relative, components_strip]
  by_cases current : root.anchor = .some .current
  · rw [current] at steps
    have tail : root.components = .current :: root.components.tail := by
      rw [steps]
      rfl
    rw [if_pos current] at components ⊢
    -- The dot at the start of the root is nowhere in the path.
    have apart : ¬ root.components <+: (names.foldl Disk.child root.trail).components := by
      intro below
      rw [tail] at below
      have inside : Component.current ∈ root.components.tail ++ names.map .name := by
        rw [← components]
        exact below.subset List.mem_cons_self
      rcases List.mem_append.mp inside with own | own
      · rw [steps] at own
        obtain ⟨segment, -, same⟩ := List.mem_map.mp own
        exact (Path.step_ne_anchor segment).2 same
      · obtain ⟨name, -, same⟩ := List.mem_map.mp own
        cases same
    rw [if_neg apart, components, List.filter_append, all, tail]
    rfl
  · rw [if_neg current] at components ⊢
    rw [components, if_pos (List.prefix_append _ _), List.drop_left, all]
    rfl

/-- A file that a plain pattern finds below a root is at the names, from the place of the root, at
which it lands, behind those of the root itself if it begins with `.`. -/
theorem Disk.exists_place (tree : disk.IsTree) (plain : '\\' ∉ root.text.toList)
    (located : disk.locate root = .ok place) (relative : (Path.mk pattern).isAbsolute = false)
    (parts : ArePlain (Path.segments (dropHere pattern.toList))) {files : List Path}
    (globbed : disk.glob root pattern = .ok files) :
    ∀ source ∈ files, ∃ names, disk.locate source = .ok (place ++ names) ∧
      (Destination.relative source root).components =
        (if root.anchor = .some .current then root.components.filter (·.isName) else []) ++
          names.map .name := by
  intro source member
  have filled := (locate_eq_ok_iff.mp located).1.2.1
  obtain ⟨steps, found, -⟩ := exists_of_map_eq_ok globbed
  obtain ⟨⟨pieces, whole⟩, -, -⟩ := steps_eq_ok_iff.mp found
  rw [toList_rooted relative] at whole
  obtain ⟨inner, own, -⟩ := compile_below whole
  obtain ⟨isFile, follow, names, rfl, some, named, -⟩ :=
    exists_names tree relative parts globbed own source member
  have trail := Path.isTrail_trail follow
  have behind := trail.mayFollowAll_of_names named
  obtain ⟨last, content, there, -⟩ := isFile_iff.mp isFile
  have admitted := (locate_eq_ok_iff.mp there).1
  obtain ⟨here, start, leads⟩ := (trail.locate_foldl behind admitted).mp there
  rw [Path.locate_trail plain filled located follow (trail.admits_of_foldl behind admitted)] at start
  cases start
  refine ⟨names, ?_, Destination.components_relative_trail plain filled follow named some⟩
  rw [there, eq_of_leads_names named leads]

end PackageSheet
