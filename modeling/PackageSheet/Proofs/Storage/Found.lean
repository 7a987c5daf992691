import PackageSheet.Proofs.Storage.Root

namespace PackageSheet

open Glob

variable {root : Path} {pattern : String}

namespace Glob

/-- Whether a component of a pattern stands for `.` or `..`. -/
def isSpecial (text : List Char) : Bool :=
  match compile text with
  | .ok pieces => (Step.mk text pieces).specials != []
  | .error _ => false

/-- The components of a pattern, none of them empty, and none in front of the last one that stands
for `.` or `..`. -/
def ArePlain (texts : List (List Char)) : Prop :=
  [] ∉ texts ∧ ∀ text ∈ texts.dropLast, isSpecial text = false

instance (texts : List (List Char)) : Decidable (ArePlain texts) :=
  inferInstanceAs (Decidable (_ ∧ _))

private theorem Step.IsCompiled.specials_eq_nil {step : Step} (compiled : step.IsCompiled)
    (plain : isSpecial step.text = false) : step.specials = [] := by
  unfold isSpecial at plain
  rw [show compile step.text = .ok step.pieces from compiled] at plain
  simpa using plain

/-- A component that stands for neither `.` nor `..` is, as it is written, a name. -/
theorem Step.isName_of_specials {step : Step} (compiled : step.IsCompiled)
    (bare : Path.IsBare step.text) (plain : step.specials = []) : Path.IsName step.text := by
  refine ⟨bare.1, bare.2, ?_, ?_⟩
  · intro dot
    have pieces : step.pieces = [.literal '.'] := by
      have own : compile ['.'] = .ok [.literal '.'] := by decide +kernel
      rw [IsCompiled, dot, own] at compiled
      exact (Except.ok.inj compiled).symm
    have special : "." ∈ step.specials := by
      simp [Step.specials, Step.accepts, pieces, isMatch, Piece.accepts]
    rw [plain] at special
    cases special
  · intro dots
    have pieces : step.pieces = [.literal '.', .literal '.'] := by
      have own : compile ['.', '.'] = .ok [.literal '.', .literal '.'] := by decide +kernel
      rw [IsCompiled, dots, own] at compiled
      exact (Except.ok.inj compiled).symm
    have special : ".." ∈ step.specials := by
      simp [Step.specials, Step.accepts, pieces, isMatch, Piece.accepts]
    rw [plain] at special
    cases special

theorem Step.isBare_of_mem_specials {step : Step} {name : String}
    (special : name ∈ step.specials) : Path.IsBare name.toList := by
  rcases cases_of_mem_specials special with rfl | rfl
  · exact ⟨by decide, by decide⟩
  · exact ⟨by decide, by decide⟩

/-- The steps for the components of a plain pattern. -/
structure Step.AreFlat (steps : List Step) : Prop where
  compiled : ∀ step ∈ steps, step.IsCompiled
  bare : ∀ step ∈ steps, Path.IsBare step.text
  flat : ∀ step ∈ steps.dropLast, step.specials = []

theorem ArePlain.areFlat {text : List Char} (plain : ArePlain (Path.segments text))
    {steps : List Step} (texts : steps.map (·.text) = Path.segments text)
    (compiled : ∀ step ∈ steps, step.IsCompiled) : Step.AreFlat steps where
  compiled := compiled
  bare := by
    intro step member
    have inside : step.text ∈ Path.segments text := texts ▸ List.mem_map_of_mem member
    exact ⟨fun none => plain.1 (none ▸ inside), Path.not_mem_of_mem_segments inside⟩
  flat := by
    intro step member
    have inside : step.text ∈ (Path.segments text).dropLast := by
      rw [← texts, ← List.map_dropLast]
      exact List.mem_map_of_mem member
    exact (compiled step (List.dropLast_subset _ member)).specials_eq_nil (plain.2 step.text inside)

theorem Step.AreFlat.tail {step : Step} {steps : List Step} (flat : AreFlat (step :: steps)) :
    step.IsCompiled ∧ Path.IsBare step.text ∧ (steps ≠ [] → step.specials = []) ∧
      AreFlat steps := by
  obtain ⟨own, compiled⟩ := List.forall_mem_cons.mp flat.compiled
  obtain ⟨text, bare⟩ := List.forall_mem_cons.mp flat.bare
  refine ⟨own, text, fun some => ?_, compiled, bare, fun other member => ?_⟩
  · have front := flat.flat
    rw [List.dropLast_cons_of_ne_nil some] at front
    exact front step List.mem_cons_self
  · have some : steps ≠ [] := by
      rintro rfl
      cases member
    have front := flat.flat
    rw [List.dropLast_cons_of_ne_nil some] at front
    exact front other (List.mem_cons_of_mem _ member)

end Glob

namespace Disk

variable {disk : Disk}

private theorem isName_of_spells (tree : disk.IsTree) {steps : List Step} (flat : Step.AreFlat steps)
    (some : steps ≠ []) {names : List String} (spells : Step.Spells disk.Names steps names)
    {path source : Path} (walked : Walked path names source) (isFile : disk.isFile source = true) :
    ∀ name ∈ names, Path.IsName name.toList := by
  have filled : ∀ name ∈ names, Path.IsBare name.toList := by
    refine spells.forall_names ?_ ?_ fun name known => (tree.named name known).isBare
    · intro step member _
      rw [String.toList_ofList]
      exact flat.bare step member
    · intro step _ name special
      exact Step.isBare_of_mem_specials special
  have early : ∀ name ∈ names.dropLast, Path.IsName name.toList := by
    refine spells.forall_dropLast ?_ ?_ tree.named
    · intro step member _
      have inside := List.dropLast_subset _ member
      rw [String.toList_ofList]
      exact Step.isName_of_specials (flat.compiled step inside) (flat.bare step inside)
        (flat.flat step member)
    · intro step member name special
      rw [flat.flat step member] at special
      cases special
  obtain none | ⟨before, final, whole⟩ := List.eq_nil_or_concat names
  · exact absurd none (spells.ne_nil some)
  · rw [List.concat_eq_append] at whole
    subst whole
    rw [List.dropLast_concat] at early
    refine List.forall_mem_append.mpr ⟨early, List.forall_mem_singleton.mpr ?_⟩
    -- The last name is one of a file, which is neither `.` nor `..`.
    have own := filled final (by simp)
    obtain ⟨front, segments⟩ := walked.exists_segments own
    refine ⟨own.1, own.2, fun dot => ?_, fun dots => ?_⟩
    · rw [isFile_of_special tree (.inl dot) segments] at isFile
      cases isFile
    · rw [isFile_of_special tree (.inr dots) segments] at isFile
      cases isFile

/-- What a pattern below a root finds is spelled behind the trail of the root by names for which the
pattern by itself stands. -/
theorem exists_names (tree : disk.IsTree) (relative : (Path.mk pattern).isAbsolute = false)
    (plain : ArePlain (Path.segments (dropHere pattern.toList))) {files : List Path}
    (globbed : disk.glob root pattern = .ok files) {inner : List Piece}
    (own : Glob.compile (dropHere pattern.toList) = .ok inner) :
    ∀ source ∈ files, disk.isFile source = true ∧
      MayFollowAll root.origin root.frontNames ∧
      ∃ names, source = names.foldl child root.trail ∧ names ≠ [] ∧
        (∀ name ∈ names, Path.IsName name.toList) ∧
        isMatch inner (['/'].intercalate (names.map String.toList)) = true := by
  obtain ⟨steps, found, rfl⟩ := exists_of_map_eq_ok globbed
  intro source member
  dsimp only at member
  split at member
  · cases member
  · rename_i openEnd
    rw [toList_rooted relative] at found openEnd
    rw [Path.origin_eq relative] at member
    obtain ⟨front, back, rfl, exact, texts, compiled⟩ := exists_steps_below found openEnd
    obtain ⟨searched, isFile⟩ := List.mem_filter.mp (List.mem_mergeSort.mp member)
    obtain ⟨follow, searched⟩ :=
      mem_search_front tree exact (fun _ => Path.bare_of_mem_frontSegments) searched
    obtain ⟨names, spells, walked⟩ := mem_search compiled searched
    have flat := plain.areFlat texts compiled
    have some : back ≠ [] := by
      rintro rfl
      exact Path.segments_ne_nil _ texts.symm
    have named := isName_of_spells tree flat some spells walked isFile
    refine ⟨isFile, follow, names, walked.eq_foldl_child named, spells.ne_nil some, named, ?_⟩
    obtain ⟨ps, reads, matched⟩ :=
      spells.reads some compiled fun step member => (flat.bare step member).2
    rw [texts, Path.intercalate_segments] at reads
    have same : inner = merged ps := by
      have both := own.symm.trans (compile_eq_ok_iff.mpr ⟨ps, reads, rfl⟩)
      exact Except.ok.inj both
    rw [same, isMatch_merged]
    exact matched

end Disk

end PackageSheet
