import Mathlib.Data.List.Induction
import PackageSheet.Proofs.Path.Order
import PackageSheet.Proofs.Storage.Rooted
import PackageSheet.Storage.Memory

/-!
Files in memory and the patterns that look for them. Memory keeps its files in the order of their
paths, one for each list of components, under the spelling that was given first
(`Memory.mem_ofFiles`). A pattern below a root stands for the texts that begin with the root and a
slash and go on as the pattern by itself says, so it finds exactly the stored paths that are spelled
so (`Memory.glob_below`).
-/

namespace PackageSheet

open Glob

namespace Memory

variable {files held : List (Path × String)} {path other : Path} {content : String}

/-- Files in the order of their paths, no two of which are the same. -/
def IsOrdered (files : List (Path × String)) : Prop :=
  files.Pairwise fun file next => file.1.Precedes next.1

/-- A path is among those of a list that was grown by a file if it was there before, or is that of
the file and new. -/
theorem mem_insertFile (ordered : IsOrdered held) :
    other ∈ (insertFile path content held).map Prod.fst ↔
      other ∈ held.map Prod.fst ∨
        other = path ∧ ∀ old ∈ held.map Prod.fst, path.components ≠ old.components := by
  induction held with
  | nil => simp [insertFile]
  | cons first held ih =>
    obtain ⟨old, text⟩ := first
    obtain ⟨ahead, later⟩ := List.pairwise_cons.mp ordered
    unfold insertFile
    by_cases same : path.components = old.components
    · rw [if_pos (Path.same_iff.mpr same)]
      simp [same]
    · rw [if_neg (mt Path.same_iff.mp same)]
      split
      · rename_i before
        have precedes := Path.precedes_of_not_same same (Path.le_iff.mp before)
        have new : ∀ next ∈ ((old, text) :: held).map Prod.fst,
            path.components ≠ next.components := by
          rw [List.map_cons, List.forall_mem_cons, List.forall_mem_map]
          exact ⟨same, fun next member => (precedes.trans (ahead next member)).components_ne⟩
        rw [List.map_cons, List.mem_cons, or_comm, and_iff_left new]
      · rw [List.map_cons, List.mem_cons, ih later, List.map_cons, List.mem_cons, or_assoc,
          List.forall_mem_cons, and_iff_right same]

private theorem isOrdered_insertFile (ordered : IsOrdered held) :
    IsOrdered (insertFile path content held) := by
  induction held with
  | nil => exact List.pairwise_singleton _ _
  | cons first held ih =>
    obtain ⟨old, text⟩ := first
    obtain ⟨ahead, later⟩ := List.pairwise_cons.mp ordered
    unfold insertFile
    split
    · exact List.pairwise_cons.mpr ⟨ahead, later⟩
    rename_i other
    have different := mt Path.same_iff.mpr other
    split
    · rename_i before
      have precedes := Path.precedes_of_not_same different (Path.le_iff.mp before)
      refine List.pairwise_cons.mpr ⟨List.forall_mem_cons.mpr ⟨precedes, ?_⟩, ordered⟩
      exact fun next member => precedes.trans (ahead next member)
    · rename_i behind
      refine List.pairwise_cons.mpr ⟨fun next member => ?_, ih later⟩
      have inside : next.1 ∈ (insertFile path content held).map Prod.fst :=
        List.mem_map_of_mem member
      rcases (mem_insertFile later).mp inside with known | ⟨rfl, -⟩
      · obtain ⟨file, own, same⟩ := List.mem_map.mp known
        rw [← same]
        exact ahead file own
      · exact not_not.mp fun not => behind (Path.le_iff.mpr not)

theorem files_ofFiles_concat (files : List (Path × String)) (file : Path × String)
    (workingDirectory : Path) :
    (ofFiles (files ++ [file]) workingDirectory).files =
      insertFile file.1 file.2 (ofFiles files workingDirectory).files :=
  List.foldl_append

variable {workingDirectory : Path}

theorem isOrdered_ofFiles : IsOrdered (ofFiles files workingDirectory).files := by
  induction files using List.reverseRecOn with
  | nil => exact .nil
  | append_singleton files file ih =>
    rw [files_ofFiles_concat]
    exact isOrdered_insertFile ih

/-- What is stored is the first of the given paths with its components. -/
theorem mem_ofFiles :
    path ∈ (ofFiles files workingDirectory).files.map Prod.fst ↔
      (files.map Prod.fst).find? (·.same path) = some path := by
  induction files using List.reverseRecOn generalizing path with
  | nil => simp [ofFiles]
  | append_singleton files file ih =>
    -- A new path is stored exactly if none with its components was given before.
    have fresh : (∀ old ∈ (ofFiles files workingDirectory).files.map Prod.fst,
        file.1.components ≠ old.components) ↔
        (files.map Prod.fst).find? (·.same file.1) = none := by
      rw [List.find?_eq_none]
      constructor
      · intro new given member same
        have known : ((files.map Prod.fst).find? (·.same file.1)).isSome = true :=
          List.find?_isSome.mpr ⟨given, member, same⟩
        obtain ⟨first, found⟩ := Option.isSome_iff_exists.mp known
        have alike := List.find?_some found
        have equal := Path.same_iff.mp alike
        have stored : (files.map Prod.fst).find? (·.same first) = some first := by
          simpa only [Path.same, equal] using found
        exact new first (ih.mpr stored) equal.symm
      · intro unknown old stored equal
        have given := List.mem_of_find?_eq_some (ih.mp stored)
        have same : old.same file.1 = true := Path.same_iff.mpr equal.symm
        exact unknown old given same
    rw [files_ofFiles_concat, mem_insertFile isOrdered_ofFiles, fresh, ih, List.map_append,
      List.find?_append, Option.or_eq_some_iff]
    refine or_congr_right ?_
    constructor
    · rintro ⟨rfl, none⟩
      exact ⟨none, by simp [Path.same]⟩
    · rintro ⟨none, found⟩
      have own := List.mem_of_find?_eq_some found
      obtain rfl : path = file.1 := by simpa using own
      exact ⟨rfl, none⟩

end Memory

namespace Glob

variable {pattern : String} {root : Path}

theorem compile_rooted (relative : (Path.mk pattern).isAbsolute = false) :
    compile (rooted root pattern).toList =
      compile (escape (rootText root) ++ '/' :: dropHere pattern.toList) :=
  congrArg compile (toList_rooted relative)

/-- A pattern below a root is one exactly if what is left of it behind its leading `./` is. -/
theorem exists_compile_rooted_iff (relative : (Path.mk pattern).isAbsolute = false) :
    (∃ pieces, compile (rooted root pattern).toList = .ok pieces) ↔
      ∃ inner, compile (dropHere pattern.toList) = .ok inner := by
  rw [compile_rooted relative]
  constructor
  · rintro ⟨pieces, compiled⟩
    obtain ⟨inner, own, -⟩ := compile_below compiled
    exact ⟨inner, own⟩
  · rintro ⟨inner, own⟩
    exact compile_above _ own

/-- A pattern below a root stands for the texts that begin with the root and a slash and go on as
what is left of it behind its leading `./` says. -/
theorem isMatch_rooted_iff (relative : (Path.mk pattern).isAbsolute = false)
    {pieces inner : List Piece} (below : compile (rooted root pattern).toList = .ok pieces)
    (own : compile (dropHere pattern.toList) = .ok inner) (cs : List Char) :
    isMatch pieces cs = true ↔
      ∃ rest, cs = rootText root ++ '/' :: rest ∧ isMatch inner rest = true := by
  rw [compile_rooted relative] at below
  obtain ⟨inner', own', stands⟩ := compile_below below
  obtain rfl : inner' = inner := Except.ok.inj (own'.symm.trans own)
  exact stands cs

end Glob

namespace Memory

variable {root : Path} {pattern : String}

/-- A search in memory finds the stored paths that its pattern stands for. -/
theorem glob_eq_ok_iff (memory : Memory) {found : List Path} :
    memory.glob root pattern = .ok found ↔
      ∃ pieces, compile (rooted root pattern).toList = .ok pieces ∧
        found = (memory.files.map Prod.fst).filter fun path => isMatch pieces path.text.toList := by
  rw [glob]
  cases compile (rooted root pattern).toList with
  | error fault => simp [Except.map]
  | ok pieces => simp [Except.map, eq_comm]

/-- A pattern below a root is one exactly if what is left of it behind its leading `./` is, and
stands for the texts that begin with the root and a slash and go on as that says. A search in
memory, where each path is stored as it was given first, finds the stored paths that are such texts,
in the order of paths and none of them twice; it fails only if there is no such pattern. -/
theorem glob_below {pattern : String} (relative : (Path.mk pattern).isAbsolute = false)
    (root : Path) (files : List (Path × String)) (workingDirectory : Path) :
    let below := compile (rooted root pattern).toList
    let own := compile (dropHere pattern.toList)
    let memory := ofFiles files workingDirectory
    ((∃ pieces, below = .ok pieces) ↔ ∃ inner, own = .ok inner) ∧
      (∀ pieces inner, below = .ok pieces → own = .ok inner → ∀ cs, isMatch pieces cs = true ↔
        ∃ rest, cs = rootText root ++ '/' :: rest ∧ isMatch inner rest = true) ∧
      (∀ path, path ∈ memory.files.map Prod.fst ↔
        (files.map Prod.fst).find? (·.same path) = some path) ∧
      ((∃ found, memory.glob root pattern = .ok found) ↔ ∃ inner, own = .ok inner) ∧
      ∀ found inner, memory.glob root pattern = .ok found → own = .ok inner →
        (∀ path, path ∈ found ↔ path ∈ memory.files.map Prod.fst ∧
          ∃ rest, path.text.toList = rootText root ++ '/' :: rest ∧ isMatch inner rest = true) ∧
        found.Pairwise Path.Precedes ∧ (found.map Path.components).Nodup := by
  intro below own memory
  have compiles : (∃ pieces, below = .ok pieces) ↔ ∃ inner, own = .ok inner :=
    exists_compile_rooted_iff relative
  refine ⟨compiles, fun pieces inner => isMatch_rooted_iff relative, fun path => mem_ofFiles,
    ?answers, fun found inner search ok => ?finds⟩
  case answers =>
    rw [← compiles]
    constructor
    · rintro ⟨found, search⟩
      obtain ⟨pieces, compiled, -⟩ := memory.glob_eq_ok_iff.mp search
      exact ⟨pieces, compiled⟩
    · rintro ⟨pieces, compiled⟩
      exact ⟨_, memory.glob_eq_ok_iff.mpr ⟨pieces, compiled, rfl⟩⟩
  case finds =>
    obtain ⟨pieces, compiled, rfl⟩ := memory.glob_eq_ok_iff.mp search
    have ordered : (memory.files.map Prod.fst).Pairwise Path.Precedes :=
      List.pairwise_map.mpr isOrdered_ofFiles
    have kept := ordered.filter fun path => isMatch pieces path.text.toList
    refine ⟨fun path => ?_, kept, List.pairwise_map.mpr (kept.imp Path.Precedes.components_ne)⟩
    rw [List.mem_filter, isMatch_rooted_iff relative compiled ok]

/-- Files of which two stand below a directory that is named like a set of characters. -/
def bracketed : List (Path × String) :=
  [(⟨"/b[1]/s/a.c"⟩, ""), (⟨"/b1/a.c"⟩, ""), (⟨"/b[1]/a.c"⟩, "")]

theorem glob_below_bracketed :
    (Path.mk "././**/*.c").isAbsolute = false ∧
      ∃ found, (ofFiles bracketed ⟨"/"⟩).glob ⟨"/b[1]//"⟩ "././**/*.c" = .ok found ∧
        ⟨"/b[1]/a.c"⟩ ∈ found ∧ ⟨"/b1/a.c"⟩ ∉ found ∧ found.Pairwise Path.Precedes := by
  have relative : (Path.mk "././**/*.c").isAbsolute = false := by decide +kernel
  have own : compile (dropHere "././**/*.c".toList) =
      .ok [.anyPath, .anyRun, .literal '.', .literal 'c'] := by decide +kernel
  have root : rootText ⟨"/b[1]//"⟩ = "/b[1]".toList := by decide +kernel
  obtain ⟨-, -, -, answers, finds⟩ := glob_below relative ⟨"/b[1]//"⟩ bracketed ⟨"/"⟩
  obtain ⟨found, search⟩ := answers.mpr ⟨_, own⟩
  obtain ⟨members, ordered, -⟩ := finds found _ search own
  refine ⟨relative, found, search, ?_, ?_, ordered⟩
  · refine (members _).mpr ⟨by decide +kernel, "a.c".toList, ?_, by decide +kernel⟩
    rw [root]
    rfl
  · intro member
    obtain ⟨-, rest, text, -⟩ := (members _).mp member
    rw [root] at text
    cases text

end Memory

end PackageSheet
