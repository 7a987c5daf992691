import PackageSheet.Proofs.Destination.Placement

namespace PackageSheet.Destination

open PackageSheet.Path

variable {paths : List Path} {path : Path}

/-- The directory that the paths of a family share is the longest of those that contain them all, and to
take it off loses nothing: every path that has components keeps some, and paths stay apart. -/
theorem sharedDirectory_greatest (some : paths ≠ []) :
    (∀ path ∈ paths, ∀ parent ∈ path.parent?,
        (sharedDirectory paths).components <+: parent.components) ∧
      ((∀ path ∈ paths, path.parent?.isSome) → ∀ cs : List Component,
        (∀ path ∈ paths, ∀ parent ∈ path.parent?, cs <+: parent.components) →
          cs <+: (sharedDirectory paths).components) ∧
      (∀ path ∈ paths, path.components ≠ [] →
        (strip path (sharedDirectory paths)).components ≠ []) ∧
      (∀ a ∈ paths, ∀ b ∈ paths, a.components ≠ b.components →
        (strip a (sharedDirectory paths)).components ≠ (strip b (sharedDirectory paths)).components) := by
  have steps {path parent : Path} (found : parent ∈ path.parent?) :
      directorySteps path = parent.components := by
    rw [directorySteps, Option.mem_def.mp found]
  have begun := (prefix_sharedDirectory_iff some).mp
    (List.prefix_refl (sharedDirectory paths).components)
  refine ⟨fun path member parent found => ?_, fun parents cs front => ?_,
    fun path member filled nothing => ?_, fun a left b right apart same => ?_⟩
  · exact steps found ▸ begun path member
  · refine (prefix_sharedDirectory_iff some).mpr fun path member => ?_
    obtain ⟨parent, found⟩ := Option.isSome_iff_exists.mp (parents path member)
    rw [steps found]
    exact front path member parent found
  · have whole := components_sharedDirectory_append member
    rw [nothing, List.append_nil] at whole
    have short := ((begun path member).trans (directorySteps_isPrefix path)).length_le
    have long := List.length_pos_of_ne_nil filled
    rw [List.length_dropLast, whole] at short
    omega
  · have first := components_sharedDirectory_append left
    have second := components_sharedDirectory_append right
    exact apart (by rw [← first, ← second, same])

theorem sharedDirectory_greatest_dotted :
    let paths : List Path := [⟨"/a/./b/../x"⟩, ⟨"/a/b//y"⟩, ⟨"/a/b/"⟩]
    paths ≠ [] ∧ (∀ path ∈ paths, path.parent?.isSome) ∧ (sharedDirectory paths).text = "/a" ∧
      paths.map (fun path => (strip path (sharedDirectory paths)).text) = ["b/../x", "b//y", "b"] ∧
      (∀ cs : List Component, (∀ path ∈ paths, ∀ parent ∈ path.parent?, cs <+: parent.components) →
        cs <+: [.root, .name "a"]) := by
  intro paths
  have some : paths ≠ [] := List.cons_ne_nil _ _
  have parents : ∀ path ∈ paths, path.parent?.isSome := by decide
  have components : (sharedDirectory paths).components = [.root, .name "a"] := by decide
  refine ⟨some, parents, by decide, by decide, fun cs front => ?_⟩
  exact components ▸ (sharedDirectory_greatest some).2.1 parents cs front

end PackageSheet.Destination
