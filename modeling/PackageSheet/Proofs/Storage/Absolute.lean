import PackageSheet.Proofs.Storage.Directory
import PackageSheet.Proofs.Storage.Undoing

namespace PackageSheet

open Glob

/-- Whatever patterns find below absolute roots goes by absolute paths. -/
def Storage.FindsAbsolute (storage : Storage) : Prop :=
  ∀ root : Path, root.isAbsolute = true → ∀ pattern files, storage.glob root pattern = .ok files →
    ∀ source ∈ files, source.isAbsolute = true

theorem Path.isAbsolute_join_of_base {base : Path} (absolute : base.isAbsolute = true)
    (other : Path) : (base.join other).isAbsolute = true := by
  cases own : other.isAbsolute with
  | true => rwa [join, if_pos own]
  | false =>
    obtain ⟨rest, text⟩ := isAbsolute_iff_text.mp absolute
    have filled : base.text.toList ≠ [] := by simp [text]
    rwa [isAbsolute_join own filled]

namespace Glob

theorem exists_slash_rooted {root : Path} (absolute : root.isAbsolute = true) (pattern : String) :
    ∃ cs, (rooted root pattern).toList = '/' :: cs := by
  unfold rooted
  split
  · rename_i own
    exact Path.isAbsolute_iff_text.mp own
  · rw [String.toList_ofList]
    obtain ⟨rest, text⟩ := Path.isAbsolute_iff_text.mp absolute
    have front : rootText root <+: '/' :: rest := text ▸ List.rdropWhile_prefix _ _
    rcases List.prefix_cons_iff.mp front with none | ⟨more, some, -⟩
    · rw [none]
      exact ⟨_, rfl⟩
    · rw [some]
      exact ⟨_, rfl⟩

private theorem exists_slash_of_isMatch {cs text : List Char} {pieces : List Piece}
    (compiled : compile ('/' :: cs) = .ok pieces) (matched : isMatch pieces text = true) :
    ∃ rest, text = '/' :: rest := by
  obtain ⟨ps, reads, rfl⟩ := compile_eq_ok_iff.mp compiled
  rw [isMatch_merged] at matched
  generalize whole : '/' :: cs = pattern at reads
  cases reads with
  | nil => cases whole
  | cons one more =>
    cases one with
    | literal plain =>
      obtain ⟨rfl, -⟩ := List.cons.inj whole
      obtain ⟨rest, found, -⟩ := isMatch_literal.mp matched
      exact ⟨rest, found⟩
    | anyChar | anyRun | within | outside | anyPath | anyPathEnd => cases whole

end Glob

theorem Storage.findsAbsolute_inMemory (memory : Memory) :
    (Storage.inMemory memory).FindsAbsolute := by
  intro root absolute pattern files found source member
  obtain ⟨pieces, compiled, rfl⟩ := exists_of_map_eq_ok found
  obtain ⟨cs, whole⟩ := exists_slash_rooted absolute pattern
  rw [whole] at compiled
  rw [Path.isAbsolute_iff_text]
  exact exists_slash_of_isMatch compiled (List.mem_filter.mp member).2

theorem Disk.Walked.isAbsolute {path last : Path} {names : List String}
    (walked : Walked path names last) (absolute : path.isAbsolute = true) :
    last.isAbsolute = true := by
  induction walked with
  | nil => exact absolute
  | @cons path next last name names extended more ih =>
    have joined : next = path.join ⟨name⟩ := by
      rcases extended with rfl | ⟨-, rfl⟩
      · have other : ¬ path.same ⟨"."⟩ = true := by
          rw [Path.same_dot, Path.components_eq, Path.isAbsolute_iff.mp absolute]
          simp
        rw [child, if_neg other]
      · rfl
    exact ih (joined ▸ Path.isAbsolute_join_of_base absolute _)

theorem Storage.findsAbsolute_onDisk (disk : Disk) : (Storage.onDisk disk).FindsAbsolute := by
  intro root absolute pattern files globbed source member
  obtain ⟨steps, found, rfl⟩ := exists_of_map_eq_ok globbed
  obtain ⟨-, -, compiled⟩ := steps_eq_ok_iff.mp found
  have whole : (Path.mk (rooted root pattern)).isAbsolute = true :=
    Path.isAbsolute_iff_text.mpr (exists_slash_rooted absolute pattern)
  dsimp only at member
  rw [if_pos whole] at member
  split at member
  · cases member
  · have searched := (List.mem_filter.mp (List.mem_mergeSort.mp member)).1
    obtain ⟨names, -, walked⟩ := Disk.mem_search compiled searched
    exact walked.isAbsolute rfl

end PackageSheet
