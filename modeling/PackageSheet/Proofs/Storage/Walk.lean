import PackageSheet.Proofs.Glob.Rooting
import PackageSheet.Proofs.Storage.Tree

namespace PackageSheet

namespace Glob.Step

/-- Names that some steps spell one after another, where others than those written out and special
ones are known. A run of directories at the end stands for something. -/
inductive Spells (known : String → Prop) : List Step → List String → Prop where
  | nil : Spells known [] []
  | one {step : Step} {steps : List Step} {name : String} {names : List String}
      (plain : step.isDescent = false) (accepts : step.accepts name = true)
      (source : step.isLiteral = true ∧ name = String.ofList step.text ∨ name ∈ step.specials ∨
        known name)
      (more : Spells known steps names) : Spells known (step :: steps) (name :: names)
  | descent {step next : Step} {steps : List Step} {between names : List String}
      (deep : step.isDescent = true) (there : ∀ name ∈ between, known name)
      (more : Spells known (next :: steps) names) :
      Spells known (step :: next :: steps) (between ++ names)
  | last {step : Step} {between : List String} (deep : step.isDescent = true)
      (there : ∀ name ∈ between, known name) (some : between ≠ []) :
      Spells known [step] between

/-- A step whose pieces are those of its text. -/
def IsCompiled (step : Step) : Prop :=
  compile step.text = .ok step.pieces

variable {known : String → Prop} {step : Step} {steps front back : List Step}
  {names : List String}

theorem Spells.ne_nil (spells : Spells known steps names) (some : steps ≠ []) : names ≠ [] := by
  induction spells with
  | nil => exact absurd rfl some
  | one => exact List.cons_ne_nil _ _
  | descent _ _ _ ih => exact List.append_ne_nil_of_right_ne_nil _ (ih (List.cons_ne_nil _ _))
  | last _ _ filled => exact filled

theorem intercalate_append {first second : List (List Char)} (some : first ≠ [])
    (others : second ≠ []) :
    ['/'].intercalate (first ++ second) =
      ['/'].intercalate first ++ '/' :: ['/'].intercalate second := by
  obtain ⟨one, first, rfl⟩ := List.exists_cons_of_ne_nil some
  obtain ⟨two, second, rfl⟩ := List.exists_cons_of_ne_nil others
  rw [List.cons_append, Path.intercalate_cons, Path.intercalate_cons, Path.intercalate_cons]
  simp

/-- A compiled step is a run of directories by itself, or is read as pieces without any. -/
theorem IsCompiled.reads (compiled : step.IsCompiled) (bare : '/' ∉ step.text) :
    (step.isDescent = true ∧ step.text = ['*', '*']) ∨
      step.isDescent = false ∧ .anyPath ∉ step.pieces ∧ Reads true step.text step.pieces := by
  obtain ⟨ps, reads, pieces⟩ := compile_eq_ok_iff.mp compiled
  rcases reads.component bare with ⟨-, text, rfl⟩ | plain
  · refine .inl ⟨?_, text⟩
    rw [isDescent, pieces]
    rfl
  · rw [merged_of_plain plain] at pieces
    rw [← pieces] at plain reads
    refine .inr ⟨?_, plain, reads⟩
    simpa [isDescent] using plain

/-- With slashes between them, what steps spell is a text that their own texts, with slashes between
them, stand for as one pattern. -/
theorem Spells.reads (spells : Spells known steps names) (some : steps ≠ [])
    (compiled : ∀ step ∈ steps, step.IsCompiled) (bare : ∀ step ∈ steps, '/' ∉ step.text) :
    ∃ ps, Reads true (['/'].intercalate (steps.map (·.text))) ps ∧
      isMatch ps (['/'].intercalate (names.map String.toList)) = true := by
  induction spells with
  | nil => exact absurd rfl some
  | @one step steps name names plain accepts _ more ih =>
    obtain ⟨own, compiled⟩ := List.forall_mem_cons.mp compiled
    obtain ⟨closed, bare⟩ := List.forall_mem_cons.mp bare
    rcases own.reads closed with ⟨deep, -⟩ | ⟨-, none, reads⟩
    · rw [plain] at deep
      cases deep
    · cases steps with
      | nil =>
        cases more
        refine ⟨step.pieces, ?_, ?_⟩
        · simpa [List.intercalate] using reads
        · simpa [List.intercalate, Step.accepts] using accepts
      | cons next steps =>
        have several := more.ne_nil (List.cons_ne_nil next steps)
        obtain ⟨ps, others, found⟩ := ih (List.cons_ne_nil next steps) compiled bare
        refine ⟨step.pieces ++ .literal '/' :: ps, ?_, ?_⟩
        · exact reads.join none closed others
        · have split := intercalate_append (List.cons_ne_nil name.toList [])
            (List.map_eq_nil_iff.not.mpr several : names.map String.toList ≠ [])
          rw [List.singleton_append] at split
          rw [List.map_cons, split, isMatch_append none]
          refine ⟨_, _, rfl, ?_, isMatch_literal.mpr ⟨_, rfl, found⟩⟩
          simpa [List.intercalate, Step.accepts] using accepts
  | @descent step next steps between names deep there more ih =>
    obtain ⟨own, compiled⟩ := List.forall_mem_cons.mp compiled
    obtain ⟨closed, bare⟩ := List.forall_mem_cons.mp bare
    rcases own.reads closed with ⟨-, text⟩ | ⟨plain, -⟩
    · have several := more.ne_nil (List.cons_ne_nil next steps)
      obtain ⟨ps, others, found⟩ := ih (List.cons_ne_nil next steps) compiled bare
      refine ⟨.anyPath :: ps, ?_, ?_⟩
      · rw [List.map_cons, text]
        exact others.descent
      · rw [isMatch_anyPath, List.map_append]
        by_cases none : between = []
        · rw [none]
          exact .inr (.inl found)
        · refine .inr (.inr ⟨_, _, intercalate_append ?_ ?_, found⟩)
          · exact List.map_eq_nil_iff.not.mpr none
          · exact List.map_eq_nil_iff.not.mpr several
    · rw [deep] at plain
      cases plain
  | @last step between deep _ _ =>
    rcases (compiled step List.mem_cons_self).reads (bare step List.mem_cons_self) with
      ⟨-, text⟩ | ⟨plain, -⟩
    · refine ⟨[.anyPath], ?_, isMatch_anyPath.mpr (.inl rfl)⟩
      rw [List.map_singleton, text]
      exact .cons .anyPathEnd .nil
    · rw [deep] at plain
      cases plain

theorem IsCompiled.literal (compiled : step.IsCompiled) (written : step.isLiteral = true) :
    step.isDescent = false ∧ ∀ name : String, step.accepts name = true ↔ name.toList = step.text := by
  have plain : ∀ c ∈ step.text, c ≠ '?' ∧ c ≠ '*' ∧ c ≠ '[' := by
    simpa [isLiteral, not_or, and_assoc] using written
  have reads {free : Bool} {text : List Char} (plain : ∀ c ∈ text, c ≠ '?' ∧ c ≠ '*' ∧ c ≠ '[') :
      Reads free text (text.map .literal) := by
    induction text generalizing free with
    | nil => exact .nil
    | cons c text ih =>
      obtain ⟨own, later⟩ := List.forall_mem_cons.mp plain
      exact .cons (.literal own) (ih later)
  have none : Piece.anyPath ∉ step.text.map Piece.literal := by simp
  have same : compile step.text = .ok (step.text.map .literal) :=
    compile_eq_ok_iff.mpr ⟨_, reads plain, (merged_of_plain none).symm⟩
  have pieces : step.pieces = step.text.map .literal := by
    have both := compiled.symm.trans same
    exact Except.ok.inj both
  have own (text cs : List Char) : isMatch (text.map .literal) cs = true ↔ cs = text := by
    induction text generalizing cs with
    | nil => exact isMatch_nil
    | cons c text ih =>
      rw [List.map_cons, isMatch_literal]
      simp [ih]
  constructor
  · rw [isDescent, pieces]
    simp
  · intro name
    rw [accepts, pieces, own]

theorem cases_of_mem_specials {name : String} (special : name ∈ step.specials) :
    name = ".." ∨ name = "." := by
  unfold specials at special
  split at special
  · simpa using (List.mem_filter.mp special).1
  · cases special

theorem accepts_of_mem_specials {name : String} (special : name ∈ step.specials) :
    step.accepts name = true := by
  unfold specials at special
  split at special
  · exact (List.mem_filter.mp special).2
  · cases special

/-- What holds of the names that are known, written out or special holds of those that are
spelled. -/
theorem Spells.forall_names {good : String → Prop} (spells : Spells known steps names)
    (written : ∀ step ∈ steps, step.isLiteral = true → good (String.ofList step.text))
    (special : ∀ step ∈ steps, ∀ name ∈ step.specials, good name)
    (listed : ∀ name, known name → good name) : ∀ name ∈ names, good name := by
  induction spells with
  | nil => nofun
  | one _ _ source more ih =>
    obtain ⟨first, written⟩ := List.forall_mem_cons.mp written
    obtain ⟨own, special⟩ := List.forall_mem_cons.mp special
    refine List.forall_mem_cons.mpr ⟨?_, ih written special⟩
    rcases source with ⟨literal, rfl⟩ | inside | there
    · exact first literal
    · exact own _ inside
    · exact listed _ there
  | descent _ there more ih =>
    obtain ⟨-, written⟩ := List.forall_mem_cons.mp written
    obtain ⟨-, special⟩ := List.forall_mem_cons.mp special
    exact List.forall_mem_append.mpr
      ⟨fun name member => listed name (there name member), ih written special⟩
  | last _ there => exact fun name member => listed name (there name member)

/-- What holds of the names that are known, and of those that all steps but the last write out or
have for special ones, holds of those in front of the last that is spelled. -/
theorem Spells.forall_dropLast {good : String → Prop} (spells : Spells known steps names)
    (written : ∀ step ∈ steps.dropLast, step.isLiteral = true → good (String.ofList step.text))
    (special : ∀ step ∈ steps.dropLast, ∀ name ∈ step.specials, good name)
    (listed : ∀ name, known name → good name) : ∀ name ∈ names.dropLast, good name := by
  induction spells with
  | nil => nofun
  | @one step steps name names _ _ source more ih =>
    by_cases only : steps = []
    · subst only
      cases more
      nofun
    · rw [List.dropLast_cons_of_ne_nil only, List.forall_mem_cons] at written special
      rw [List.dropLast_cons_of_ne_nil (more.ne_nil only)]
      refine List.forall_mem_cons.mpr ⟨?_, ih written.2 special.2⟩
      rcases source with ⟨literal, rfl⟩ | inside | there
      · exact written.1 literal
      · exact special.1 _ inside
      · exact listed _ there
  | @descent step next steps between names _ there more ih =>
    rw [List.dropLast_cons_of_ne_nil (List.cons_ne_nil next steps), List.forall_mem_cons]
      at written special
    rw [List.dropLast_append_of_ne_nil (more.ne_nil (List.cons_ne_nil next steps))]
    exact List.forall_mem_append.mpr
      ⟨fun name member => listed name (there name member), ih written.2 special.2⟩
  | last _ there =>
    exact fun name member => listed name (there name (List.dropLast_subset _ member))

end Glob.Step

namespace Disk

open Glob

/-- A path is walked by names one after another, each put behind the path so far, or in place of it
where that is `.`. Special names are also put behind that. -/
inductive Walked : Path → List String → Path → Prop where
  | nil {path : Path} : Walked path [] path
  | cons {path next last : Path} {name : String} {names : List String}
      (extended : next = child path name ∨ (name = ".." ∨ name = ".") ∧ next = path.join ⟨name⟩)
      (more : Walked next names last) : Walked path (name :: names) last

variable {disk : Disk} {path found next last : Path} {names others : List String}
  {steps : List Step}

private theorem Walked.append (early : Walked path names next) (late : Walked next others last) :
    Walked path (names ++ others) last := by
  induction early with
  | nil => exact late
  | cons extended _ ih => exact .cons extended (ih late)

private theorem Walked.of_append (walked : Walked path (names ++ others) last) :
    ∃ middle, Walked path names middle ∧ Walked middle others last := by
  induction names generalizing path with
  | nil => exact ⟨path, .nil, walked⟩
  | cons name names ih =>
    rw [List.cons_append] at walked
    cases walked with
    | cons extended more =>
      obtain ⟨middle, early, late⟩ := ih more
      exact ⟨middle, .cons extended early, late⟩

theorem exists_segments_child {name : String} (path : Path) (bare : '/' ∉ name.toList) :
    ∃ front, Path.segments (child path name).text.toList = front ++ [name.toList] := by
  unfold child
  split
  · exact ⟨[], Path.segments_of_bare bare⟩
  · exact Path.exists_segments_join path bare

theorem Walked.exists_segments {name : String} (walked : Walked path (names ++ [name]) last)
    (bare : Path.IsBare name.toList) :
    ∃ front, Path.segments last.text.toList = front ++ [name.toList] := by
  obtain ⟨middle, -, more⟩ := walked.of_append
  cases more with
  | cons extended rest =>
    cases rest
    rcases extended with rfl | ⟨-, rfl⟩
    · exact exists_segments_child middle bare.2
    · exact Path.exists_segments_join middle bare.2

private theorem walked_foldl_child (names : List String) (path : Path) :
    Walked path names (names.foldl child path) := by
  induction names generalizing path with
  | nil => exact .nil
  | cons name names ih => exact .cons (.inl rfl) (ih _)

/-- Names other than special ones are put one behind the other. -/
theorem Walked.eq_foldl_child (walked : Walked path names last)
    (named : ∀ name ∈ names, Path.IsName name.toList) : last = names.foldl child path := by
  induction walked with
  | nil => rfl
  | @cons path next last name names extended more ih =>
    obtain ⟨own, named⟩ := List.forall_mem_cons.mp named
    have nextEq : next = child path name := by
      refine extended.resolve_right fun ⟨special, _⟩ => ?_
      rcases special with rfl | rfl
      · exact own.not_parent rfl
      · exact own.not_current rfl
    rw [List.foldl_cons, ← nextEq]
    exact ih named

/-- From an absolute path, names are put one behind the other. -/
theorem Walked.eq_foldl_join (walked : Walked path names last)
    (bare : ∀ name ∈ names, Path.IsBare name.toList) (absolute : path.isAbsolute = true) :
    last = names.foldl (fun path name => path.join ⟨name⟩) path := by
  induction walked with
  | nil => rfl
  | @cons path next last name names extended more ih =>
    obtain ⟨own, bare⟩ := List.forall_mem_cons.mp bare
    have anchored := Path.isAbsolute_iff.mp absolute
    have joined : next = path.join ⟨name⟩ := by
      rcases extended with rfl | ⟨-, rfl⟩
      · have other : ¬ path.same ⟨"."⟩ = true := by
          rw [Path.same_dot, Path.components_eq, anchored]
          simp
        rw [child, if_neg other]
      · rfl
    rw [List.foldl_cons, ← joined]
    exact ih bare (joined ▸ (Path.isAbsolute_join_eq own.2).trans absolute)

theorem mem_below {place names : Place} (member : names ∈ disk.below place) :
    names ≠ [] ∧ ∀ name ∈ names, disk.Names name := by
  obtain ⟨filled, listed⟩ := mem_below_iff.mp member
  obtain ⟨node, inside, whole⟩ := List.mem_map.mp listed
  exact ⟨filled, fun name own => ⟨node, inside, whole ▸ List.mem_append_right _ own⟩⟩

private theorem names_of_mem_children {name : String} (member : name ∈ disk.children path) :
    disk.Names name := by
  unfold children at member
  split at member
  · obtain ⟨names, below, single⟩ := List.mem_filterMap.mp member
    split at single
    · cases single
      exact (mem_below below).2 _ (List.mem_singleton_self _)
    · cases single
  · cases member

private theorem mem_descendants {name : String} (member : (name, found) ∈ disk.descendants path) :
    ∃ between, (∀ other ∈ between ++ [name], disk.Names other) ∧
      Walked path (between ++ [name]) found := by
  unfold descendants at member
  split at member
  · obtain ⟨names, below, same⟩ := List.mem_map.mp member
    obtain ⟨some, known⟩ := mem_below below
    obtain none | ⟨between, last, rfl⟩ := List.eq_nil_or_concat names
    · exact absurd none some
    · rw [List.concat_eq_append] at same known
      rw [Prod.mk.injEq, List.getLast?_concat, Option.getD_some] at same
      obtain ⟨rfl, rfl⟩ := same
      exact ⟨between, known, walked_foldl_child _ _⟩
  · cases member

/-- A path that steps lead to was walked by names that they spell. -/
theorem mem_search (compiled : ∀ step ∈ steps, step.IsCompiled)
    (member : found ∈ disk.search steps path) :
    ∃ names, Step.Spells disk.Names steps names ∧ Walked path names found := by
  fun_induction search disk steps path with
  | case1 path => exact ⟨[], .nil, List.mem_singleton.mp member ▸ .nil⟩
  | case2 step steps path written name allowed ih =>
    obtain ⟨own, compiled⟩ := List.forall_mem_cons.mp compiled
    obtain ⟨plain, accepts⟩ := own.literal written
    obtain ⟨names, spells, walked⟩ := ih compiled member
    have self := (accepts name).mpr (String.toList_ofList)
    exact ⟨name :: names, .one plain self (.inl ⟨written, rfl⟩) spells,
      .cons (.inl rfl) walked⟩
  | case3 | case4 => cases member
  | case5 step path _ _ deep =>
    obtain ⟨⟨name, last⟩, there, same⟩ := List.mem_map.mp (List.mem_filter.mp member).1
    obtain ⟨between, known, walked⟩ := mem_descendants there
    exact ⟨between ++ [name], .last deep known (by simp), same ▸ walked⟩
  | case6 step path _ _ deep next steps _ ih =>
    obtain ⟨own, compiled⟩ := List.forall_mem_cons.mp compiled
    obtain ⟨names, spells, walked⟩ := ih compiled member
    exact ⟨[] ++ names, .descent deep nofun spells, walked⟩
  | case7 step path _ _ deep next steps plain ih =>
    obtain ⟨-, -, compiled⟩ : _ ∧ _ ∧ _ := by simpa only [List.forall_mem_cons] using compiled
    obtain ⟨⟨name, middle⟩, there, later⟩ := List.mem_flatMap.mp member
    dsimp only at later
    split at later
    · rename_i accepts
      obtain ⟨between, known, walked⟩ := mem_descendants there
      obtain ⟨names, spells, more⟩ := ih middle compiled later
      have own := known name (List.mem_append_right _ (List.mem_singleton_self name))
      have flat : next.isDescent = false := Bool.not_eq_true _ ▸ plain
      refine ⟨between ++ name :: names, .descent deep ?_ (.one flat accepts (.inr (.inr own))
        spells), ?_⟩
      · intro other member
        exact known other (List.mem_append_left _ member)
      · rw [← List.singleton_append, ← List.append_assoc]
        exact walked.append more
    · cases later
  | case8 step steps path _ _ plain ihSpecial ih =>
    obtain ⟨-, compiled⟩ := List.forall_mem_cons.mp compiled
    have flat : step.isDescent = false := Bool.not_eq_true _ ▸ plain
    rcases List.mem_append.mp member with special | listed
    · obtain ⟨name, own, later⟩ := List.mem_flatMap.mp special
      obtain ⟨names, spells, walked⟩ := ihSpecial name compiled later
      exact ⟨name :: names, .one flat (Step.accepts_of_mem_specials own) (.inr (.inl own)) spells,
        .cons (.inr ⟨Step.cases_of_mem_specials own, rfl⟩) walked⟩
    · obtain ⟨name, own, later⟩ := List.mem_flatMap.mp listed
      split at later
      · rename_i accepts
        obtain ⟨names, spells, walked⟩ := ih name compiled later
        exact ⟨name :: names, .one flat accepts (.inr (.inr (names_of_mem_children own))) spells,
          .cons (.inl rfl) walked⟩
      · cases later

end Disk

end PackageSheet
