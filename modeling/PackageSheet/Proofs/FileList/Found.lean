import PackageSheet.Proofs.FileList.Respelling
import PackageSheet.Proofs.Glob.Naming
import PackageSheet.Proofs.Storage.Respelled

namespace PackageSheet

open Glob

variable {respelling : Respelling}

/-- A pattern for names takes out a respelled path with the path. -/
theorem Path.Respelled.takes_eq {token : String} (naming : IsNaming token) {source renamed : Path}
    (respelled : source.Respelled respelling renamed) :
    Exclusion.takes token renamed = Exclusion.takes token source := by
  obtain ⟨steps, name, own, others⟩ := respelled
  unfold Exclusion.takes
  cases compiled : Exclusion.compile token with
  | error fault => rfl
  | ok exclusion =>
    obtain ⟨qs, taken⟩ := Exclusion.excludes_iff_of_isNaming naming compiled
    rw [Bool.eq_iff_iff, taken source _ name own, taken renamed _ name others]

namespace Site

variable {disk : Disk} {site second : Site} {recipe counterpart : Recipe} {pattern : String}

/-- Two roots that a disk keeps lead to the same place, if to any, and are spelled as the directory and
the same steps. -/
structure RootRespelled (respelling : Respelling) (disk : Disk) (root other : Path) : Prop where
  keeps : disk.Keeps root
  keeps_other : disk.Keeps other
  same : ∀ place, disk.locate root = .ok place ↔ disk.locate other = .ok place
  steps : ∃ steps, root.keptSteps = respelling.one ++ steps ∧
    other.keptSteps = respelling.other ++ steps

private theorem respelled_below {root other : Path} (roots : RootRespelled respelling disk root other)
    {names : List String} (named : ∀ name ∈ names, Path.IsName name.toList) (some : names ≠ []) :
    (Entry.below root (names.foldl Disk.child root.trail)).Respelled respelling
      (Entry.below other (names.foldl Disk.child other.trail)) := by
  obtain ⟨steps, kept, keptOther⟩ := roots.steps
  have components {root : Path} (keeps : disk.Keeps root) :
      (names.foldl Disk.child root.trail).components = root.keptSteps ++ names.map .name := by
    have filled := keeps.admitted.2.1
    have follow := Path.mayFollowAll_frontNames keeps.direct.plain filled keeps.direct.kept
    rw [(Path.isTrail_trail follow).components_foldl named some,
      Path.trailSteps_eq_keptSteps keeps.direct.plain filled follow]
  have destination {root : Path} (keeps : disk.Keeps root) :=
    keeps.direct.relative_eq keeps.admitted.2.1 named some
  obtain ⟨front, last, whole⟩ : ∃ front last, names = front ++ [last] :=
    ⟨_, _, (List.dropLast_concat_getLast some).symm⟩
  refine ⟨⟨steps ++ front.map .name, last, ?_, ?_⟩, ?_⟩
  · rw [Entry.below, components roots.keeps, kept, whole]
    simp
  · rw [Entry.below, components roots.keeps_other, keptOther, whole]
    simp
  · rw [Entry.below, Entry.below, destination roots.keeps, destination roots.keeps_other]

/-- A plain pattern finds respelled entries below respelled roots. -/
theorem found_respelled (tree : disk.IsTree) (storage : site.storage = .onDisk disk)
    (storageSecond : second.storage = .onDisk disk)
    (roots : RootRespelled respelling disk recipe.root.value counterpart.root.value)
    (relative : (Path.mk pattern).isAbsolute = false)
    (plain : Glob.ArePlain (Path.segments (dropHere pattern.toList))) :
    List.Forall₂ (Entry.Respelled respelling) (site.found recipe pattern).value
      (second.found counterpart pattern).value := by
  have value (site : Site) (recipe : Recipe) (storage : site.storage = .onDisk disk) :
      (site.found recipe pattern).value =
        ((disk.glob recipe.root.value pattern).toOption.getD []).map
          (Entry.below recipe.root.value) := by
    unfold found
    rw [storage]
    dsimp only [Storage.onDisk]
    cases disk.glob recipe.root.value pattern with
    | error fault => rfl
    | ok files => cases files <;> rfl
  rw [value site recipe storage, value second counterpart storageSecond]
  rcases disk.glob_respelled tree roots.keeps roots.keeps_other roots.same relative plain with
    ⟨⟨fault, first⟩, ⟨other, last⟩⟩ | ⟨found, named, first, last⟩
  · rw [first, last]
    exact .nil
  · rw [first, last, Except.toOption, Except.toOption, Option.getD_some, Option.getD_some,
      List.map_map, List.map_map]
    refine List.forall₂_map_left_iff.mpr (List.forall₂_map_right_iff.mpr ?_)
    refine List.forall₂_same.mpr fun names member => ?_
    exact respelled_below roots (named names member).2 (named names member).1

/-- A file that a plain pattern finds lands at the names that lead to it from the root, unless the root
begins with `.` and goes on by names. -/
theorem lands_below_iff (tree : disk.IsTree) (storage : site.storage = .onDisk disk) {base : Place}
    (literal : '\\' ∉ recipe.root.value.text.toList)
    (located : disk.locate recipe.root.value = .ok base)
    (relative : (Path.mk pattern).isAbsolute = false)
    (plain : Glob.ArePlain (Path.segments (dropHere pattern.toList))) :
    ∀ entry ∈ (site.found recipe pattern).value, ∃ below,
      disk.locate entry.source = .ok (base ++ below) ∧
        (entry.destination.components = below.map .name ↔
          (recipe.root.value.anchor = some .current →
            recipe.root.value.components.filter (·.isName) = [])) := by
  intro entry member
  unfold found at member
  rw [storage] at member
  dsimp only [Storage.onDisk] at member
  split at member
  · cases member
  · cases member
  · rename_i files filled globbed
    obtain ⟨source, inside, rfl⟩ := List.mem_map.mp member
    obtain ⟨below, there, components⟩ :=
      Disk.exists_place tree literal located relative plain globbed source inside
    refine ⟨below, there, ?_⟩
    rw [Entry.below, components, List.append_left_eq_self]
    split
    · rename_i current
      exact ⟨fun none _ => none, fun none => none current⟩
    · rename_i other
      exact ⟨fun _ current => absurd current other, fun _ => rfl⟩

end Site

end PackageSheet
