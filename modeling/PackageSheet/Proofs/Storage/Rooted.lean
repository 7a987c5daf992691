import Mathlib.Data.List.Forall2
import PackageSheet.Proofs.Storage.Trail
import PackageSheet.Proofs.Storage.Walk

/-!
How a pattern is followed below a root on a disk. The steps for the root stand for its own segments
alone (`Step.IsExact`), so what is found is found by the steps for the pattern from one path, the
trail of the root (`mem_search_front`, `search_front`), which leads where the root does.
-/

namespace PackageSheet

open Glob

theorem exists_of_map_eq_ok {ε α β : Type} {f : α → β} {result : Except ε α} {b : β}
    (h : result.map f = .ok b) : ∃ a, result = .ok a ∧ f a = b := by
  cases result with
  | error e => cases h
  | ok a => exact ⟨a, rfl, Except.ok.inj h⟩

namespace Glob

variable {above text : List Char}

/-! ### Steps of a pattern -/

private theorem mapM_compile {texts : List (List Char)} {steps : List Step}
    (h : texts.mapM (fun text => (compile text).map (Step.mk text)) = .ok steps) :
    steps.map (·.text) = texts ∧ ∀ step ∈ steps, step.IsCompiled := by
  induction texts generalizing steps with
  | nil =>
    cases h
    exact ⟨rfl, nofun⟩
  | cons text texts ih =>
    rw [List.mapM_cons] at h
    cases own : compile text with
    | error fault =>
      rw [own] at h
      cases h
    | ok pieces =>
      have first : (compile text).map (Step.mk text) = .ok ⟨text, pieces⟩ := by rw [own]; rfl
      cases rest : texts.mapM (fun text => (compile text).map (Step.mk text)) with
      | error fault =>
        rw [first, rest] at h
        cases h
      | ok others =>
        obtain ⟨same, compiled⟩ := ih rest
        rw [first, rest] at h
        cases h
        exact ⟨by rw [List.map_cons, same], List.forall_mem_cons.mpr ⟨own, compiled⟩⟩

private theorem mapM_compile_of {steps : List Step} (compiled : ∀ step ∈ steps, step.IsCompiled) :
    (steps.map (·.text)).mapM (fun text => (compile text).map (Step.mk text)) = .ok steps := by
  induction steps with
  | nil => rfl
  | cons step steps ih =>
    obtain ⟨own, compiled⟩ := List.forall_mem_cons.mp compiled
    have first : (compile step.text).map (Step.mk step.text) = .ok step := by
      rw [show compile step.text = .ok step.pieces from own]
      rfl
    rw [List.map_cons, List.mapM_cons, first, ih compiled]
    rfl

theorem steps_eq_ok_iff {text : List Char} {steps : List Step} :
    Glob.steps text = .ok steps ↔ (∃ pieces, compile text = .ok pieces) ∧
      steps.map (·.text) = componentTexts text ∧ ∀ step ∈ steps, step.IsCompiled := by
  unfold Glob.steps
  constructor
  · intro h
    cases whole : compile text with
    | error fault => simp [whole, bind, Except.bind] at h
    | ok pieces =>
      have rest : (componentTexts text).mapM (fun text => (compile text).map (Step.mk text)) =
          .ok steps := by
        simpa [whole, bind, Except.bind] using h
      exact ⟨⟨pieces, rfl⟩, mapM_compile rest⟩
  · rintro ⟨⟨pieces, whole⟩, texts, compiled⟩
    have rest := mapM_compile_of compiled
    rw [texts] at rest
    simpa [whole, bind, Except.bind] using rest

/-! ### Components of a pattern below a text -/

theorem toList_rooted {root : Path} {pattern : String}
    (relative : (Path.mk pattern).isAbsolute = false) :
    (rooted root pattern).toList =
      escape (rootText root) ++ '/' :: dropHere pattern.toList := by
  rw [rooted, if_neg (by simp [relative]), String.toList_ofList]

/-- The last segment of a text is empty only if the text is or ends in a slash. -/
theorem segments_getLast? {text : List Char} (last : (Path.segments text).getLast? = some []) :
    text = [] ∨ text.getLast? = some '/' := by
  obtain ⟨front, whole⟩ := List.getLast?_eq_some_iff.mp last
  have textEq := Path.intercalate_segments text
  rw [whole] at textEq
  by_cases none : front = []
  · left
    rw [← textEq, none]
    rfl
  · right
    rw [← textEq, Step.intercalate_append none (List.cons_ne_nil _ _)]
    simp [List.intercalate]

theorem componentTexts_slash (openEnd : ('/' :: text).getLast? ≠ some '/') :
    componentTexts ('/' :: text) = Path.segments text := by
  have whole : componentTexts ('/' :: text) =
      if (Path.segments text).getLast? = some [] then (Path.segments text).dropLast
      else Path.segments text := rfl
  refine whole.trans (if_neg fun empty => openEnd ?_)
  rcases segments_getLast? empty with rfl | slash
  · rfl
  · rw [List.getLast?_cons, slash]
    rfl

/-- The segments of a text that lead on from where it starts. -/
def frontSegments : List Char → List (List Char)
  | [] => []
  | '/' :: cs => Path.segments cs
  | cs => Path.segments cs

theorem frontSegments_of_open (filled : above ≠ []) (relative : above.head? ≠ some '/') :
    frontSegments above = Path.segments above := by
  unfold frontSegments
  split
  · exact absurd rfl filled
  · exact absurd rfl relative
  · rfl

theorem componentTexts_below (openEnd : (above ++ '/' :: text).getLast? ≠ some '/') :
    componentTexts (above ++ '/' :: text) = frontSegments above ++ Path.segments text := by
  by_cases none : above = []
  · subst none
    exact componentTexts_slash openEnd
  · by_cases relative : above.head? = some '/'
    · obtain ⟨cs, rfl⟩ := List.head?_eq_some_iff.mp relative
      rw [List.cons_append] at openEnd ⊢
      rw [componentTexts_slash openEnd, Path.segments_slash]
      rfl
    · obtain ⟨c, cs, rfl⟩ := List.exists_cons_of_ne_nil none
      rw [frontSegments_of_open none relative, ← Path.segments_slash]
      unfold componentTexts
      split
      · rename_i anchored
        exact absurd (congrArg List.head? anchored) relative
      · refine if_neg fun empty => ?_
        exact (segments_getLast? empty).elim (by simp) openEnd

/-! ### Steps for the segments of a root -/

private theorem mem_escape {c : Char} : c ∈ escape above → c ∈ above ∨ c = '[' ∨ c = ']' := by
  intro member
  obtain ⟨d, own, inside⟩ := List.mem_flatMap.mp member
  split at inside
  · simp only [List.mem_cons, List.not_mem_nil, or_false] at inside
    rcases inside with rfl | rfl | rfl
    · exact .inr (.inl rfl)
    · exact .inl own
    · exact .inr (.inr rfl)
  · exact .inl (List.mem_singleton.mp inside ▸ own)

theorem escape_append (first second : List Char) :
    escape (first ++ second) = escape first ++ escape second :=
  List.flatMap_append

theorem escape_slash (text : List Char) : escape ('/' :: text) = '/' :: escape text :=
  escape_append ['/'] text

private theorem escape_intercalate (segs : List (List Char)) :
    escape (['/'].intercalate segs) = ['/'].intercalate (segs.map escape) := by
  have tail (rest : List (List Char)) :
      escape (rest.flatMap ('/' :: ·)) = (rest.map escape).flatMap ('/' :: ·) := by
    induction rest with
    | nil => rfl
    | cons second rest ih =>
      rw [List.flatMap_cons, escape_append, ih, escape_slash]
      rfl
  cases segs with
  | nil => rfl
  | cons first rest =>
    rw [List.map_cons, Path.intercalate_cons, Path.intercalate_cons, escape_append, tail]

private theorem segments_escape (text : List Char) :
    Path.segments (escape text) = (Path.segments text).map escape := by
  have bare : ∀ s ∈ (Path.segments text).map escape, '/' ∉ s := by
    intro s member slash
    obtain ⟨segment, own, rfl⟩ := List.mem_map.mp member
    rcases mem_escape slash with inside | other | other
    · exact Path.not_mem_of_mem_segments own inside
    · exact absurd other (by decide)
    · exact absurd other (by decide)
  have whole := escape_intercalate (Path.segments text)
  rw [Path.intercalate_segments] at whole
  rw [whole, Path.segments_intercalate bare]
  simpa using Path.segments_ne_nil text

theorem frontSegments_escape (text : List Char) :
    frontSegments (escape text) = (frontSegments text).map escape := by
  by_cases none : text = []
  · subst none
    rfl
  · by_cases relative : text.head? = some '/'
    · obtain ⟨cs, rfl⟩ := List.head?_eq_some_iff.mp relative
      rw [escape_slash]
      exact segments_escape cs
    · obtain ⟨c, cs, rfl⟩ := List.exists_cons_of_ne_nil none
      have other : c ≠ '/' := fun same => relative (congrArg some same)
      have first : (escape (c :: cs)).head? ≠ some '/' := by
        rw [escape, List.flatMap_cons]
        split <;> simp [other]
      have filled : escape (c :: cs) ≠ [] := by
        rw [escape, List.flatMap_cons]
        split <;> simp
      rw [frontSegments_of_open filled first, frontSegments_of_open none relative, segments_escape]

theorem escape_of_plain {segment : List Char} (plain : ∀ c ∈ segment, isMeta c = false) :
    escape segment = segment := by
  induction segment with
  | nil => rfl
  | cons c segment ih =>
    obtain ⟨own, plain⟩ := List.forall_mem_cons.mp plain
    have step : escape (c :: segment) = c :: escape segment := by
      rw [escape, List.flatMap_cons, own]
      rfl
    rw [step, ih plain]

theorem compile_escape (segment : List Char) :
    compile (escape segment) = .ok (segment.map exactly) := by
  have reads {free : Bool} (segment : List Char) :
      Reads free (escape segment) (segment.map exactly) := by
    induction segment generalizing free with
    | nil => exact .nil
    | cons c segment ih =>
      have step : escape (c :: segment) = escaped c ++ escape segment := List.flatMap_cons
      rw [step]
      exact .cons (written_escaped c _) ih
  have plain : Piece.anyPath ∉ segment.map exactly := by
    intro member
    obtain ⟨c, -, same⟩ := List.mem_map.mp member
    have single := isSingle_exactly c
    rw [same] at single
    exact single
  exact compile_eq_ok_iff.mpr ⟨_, reads segment, (merged_of_plain plain).symm⟩

namespace Step

/-- A step that stands for one segment alone. -/
structure IsExact (step : Step) (segment : List Char) : Prop where
  text : step.text = escape segment
  pieces : step.pieces = segment.map exactly

variable {step : Step} {segment : List Char} {name : String}

private theorem IsCompiled.isExact (compiled : step.IsCompiled) (text : step.text = escape segment) :
    step.IsExact segment := by
  rw [IsCompiled, text, compile_escape] at compiled
  exact ⟨text, (Except.ok.inj compiled).symm⟩

theorem IsExact.accepts_iff (exact : step.IsExact segment) :
    step.accepts name = true ↔ name.toList = segment := by
  rw [accepts, exact.pieces, ← List.append_nil (segment.map exactly), isMatch_exactly]
  simp

private theorem IsExact.isDescent (exact : step.IsExact segment) : step.isDescent = false := by
  rw [Step.isDescent, exact.pieces]
  simp only [List.contains_eq_mem, List.mem_map, decide_eq_false_iff_not, not_exists, not_and]
  intro c _ same
  have single := isSingle_exactly c
  rw [same] at single
  exact single

private theorem IsExact.isLiteral (exact : step.IsExact segment) :
    step.isLiteral = !segment.any isMeta := by
  by_cases plain : ∀ c ∈ segment, isMeta c = false
  · have none : segment.any isMeta = false := by simpa using plain
    rw [Step.isLiteral, exact.text, escape_of_plain plain, none]
    simp only [Bool.not_false, Bool.not_eq_true', List.any_eq_false]
    intro c member openSet
    have own := plain c member
    simp only [isMeta, Bool.or_eq_false_iff] at own
    simp [own.1.1.1, own.1.1.2, own.1.2] at openSet
  · obtain ⟨c, member, special⟩ : ∃ c ∈ segment, isMeta c = true := by simpa using plain
    have some : segment.any isMeta = true := List.any_eq_true.mpr ⟨c, member, special⟩
    have bracket : '[' ∈ step.text := by
      rw [exact.text]
      refine List.mem_flatMap.mpr ⟨c, member, ?_⟩
      rw [if_pos special]
      exact List.mem_cons_self
    have opened : step.text.any (fun c => c == '?' || c == '*' || c == '[') = true :=
      List.any_eq_true.mpr ⟨'[', bracket, by decide⟩
    rw [Step.isLiteral, some, opened]

private theorem IsExact.specials (exact : step.IsExact segment) (special : segment.any isMeta = true) :
    step.specials = [] := by
  rw [List.eq_nil_iff_forall_not_mem]
  intro name member
  have accepted := exact.accepts_iff.mp (accepts_of_mem_specials member)
  rcases cases_of_mem_specials member with rfl | rfl
  · exact absurd (accepted ▸ special) (by decide)
  · exact absurd (accepted ▸ special) (by decide)

end Step

theorem forall₂_isExact {steps : List Step} {segs : List (List Char)}
    (texts : steps.map (·.text) = segs.map escape) (compiled : ∀ step ∈ steps, step.IsCompiled) :
    List.Forall₂ Step.IsExact steps segs := by
  induction steps generalizing segs with
  | nil =>
    rw [List.map_nil, List.nil_eq, List.map_eq_nil_iff] at texts
    exact texts ▸ .nil
  | cons step steps ih =>
    obtain ⟨own, compiled⟩ := List.forall_mem_cons.mp compiled
    obtain ⟨segment, rest, rfl, text, texts⟩ := List.map_eq_cons_iff.mp texts.symm
    exact .cons (own.isExact text.symm) (ih texts.symm compiled)

/-- A pattern below a text begins with steps for the segments of that text, and goes on with those for
its own. -/
theorem exists_steps_below {steps : List Step}
    (found : Glob.steps (escape above ++ '/' :: text) = .ok steps)
    (openEnd : (escape above ++ '/' :: text).getLast? ≠ some '/') :
    ∃ front back, steps = front ++ back ∧ List.Forall₂ Step.IsExact front (frontSegments above) ∧
      back.map (·.text) = Path.segments text ∧ ∀ step ∈ back, step.IsCompiled := by
  obtain ⟨-, texts, compiled⟩ := steps_eq_ok_iff.mp found
  rw [componentTexts_below openEnd, frontSegments_escape] at texts
  obtain ⟨front, back, rfl, own, rest⟩ := List.map_eq_append_iff.mp texts
  obtain ⟨early, late⟩ := List.forall_mem_append.mp compiled
  exact ⟨front, back, rfl, forall₂_isExact own early, rest, late⟩

end Glob

namespace Disk

variable {disk : Disk} {path found : Path} {step : Step} {steps front back : List Step}
  {segment : List Char} {segs : List (List Char)}

/-- Whether a step that stands for one segment alone leads on from a path. -/
def passes (disk : Disk) (path : Path) (segment : List Char) : Bool :=
  if segment.any isMeta then
    disk.isDirectory path && (disk.children path).contains (String.ofList segment)
  else disk.allows path (String.ofList segment)

theorem flatMap_only {α β : Type} [DecidableEq α] {items : List α} (distinct : items.Nodup)
    (only : α) (f : α → List β) :
    (items.flatMap fun item => if item = only then f item else []) =
      if only ∈ items then f only else [] := by
  induction items with
  | nil => rfl
  | cons item items ih =>
    obtain ⟨fresh, distinct⟩ := List.nodup_cons.mp distinct
    rw [List.flatMap_cons, ih distinct]
    by_cases same : item = only
    · subst same
      simp [fresh]
    · simp [same, Ne.symm same]

theorem search_literal (written : step.isLiteral = true) :
    disk.search (step :: steps) path =
      if disk.allows path (String.ofList step.text) then
        disk.search steps (child path (String.ofList step.text))
      else [] := by
  rw [search.eq_def]
  dsimp only
  rw [if_pos written]

theorem search_names (other : step.isLiteral = false) (flat : step.isDescent = false) :
    disk.search (step :: steps) path =
      if disk.isDirectory path then
        step.specials.flatMap (fun name => disk.search steps (path.join ⟨name⟩)) ++
          (disk.children path).flatMap fun name =>
            if step.accepts name then disk.search steps (child path name) else []
      else [] := by
  rw [search.eq_def]
  dsimp only
  rw [if_neg (by simp [other])]
  by_cases directory : disk.isDirectory path = true
  · rw [if_neg (by simp [directory]), if_neg (by simp [flat]), if_pos directory]
  · rw [if_pos (by simp [directory]), if_neg directory]

/-- A step that stands for one segment alone leads on to that segment, or nowhere. -/
theorem search_exact (tree : disk.IsTree) (exact : step.IsExact segment) :
    disk.search (step :: steps) path =
      if disk.passes path segment then disk.search steps (child path (String.ofList segment))
      else [] := by
  unfold passes
  by_cases special : segment.any isMeta = true
  · have other : step.isLiteral = false := by
      rw [exact.isLiteral, special]
      rfl
    have accepts (name : String) :
        (if step.accepts name = true then disk.search steps (child path name) else []) =
          if name = String.ofList segment then disk.search steps (child path name) else [] := by
      refine if_congr ?_ rfl rfl
      rw [exact.accepts_iff, ← String.toList_inj, String.toList_ofList]
    rw [search_names other exact.isDescent, if_pos special, exact.specials special,
      List.flatMap_nil, List.nil_append]
    simp only [accepts]
    rw [flatMap_only (tree.nodup_children path)]
    by_cases directory : disk.isDirectory path = true
    · simp [directory]
    · simp [directory]
  · have literal : step.isLiteral = true := by
      rw [exact.isLiteral, (Bool.not_eq_true _).mp special]
      rfl
    have plain : ∀ c ∈ segment, isMeta c = false := by simpa using special
    rw [search_literal literal, if_neg special, exact.text, escape_of_plain plain]

private theorem passes_dot_nil (disk : Disk) : disk.passes ⟨"."⟩ [] = false := by
  have nowhere : disk.locate ⟨""⟩ = .error .missing := rfl
  have there : disk.passes ⟨"."⟩ [] = disk.holds ⟨""⟩ := rfl
  rw [there, holds, nodeAt?, nowhere]
  rfl

/-- What is found by steps for some segments and further steps is found by these from the trail that
the segments make. -/
theorem mem_search_front (tree : disk.IsTree) (exact : List.Forall₂ Step.IsExact front segs)
    (bare : ∀ segment ∈ segs, '/' ∉ segment)
    (member : found ∈ disk.search (front ++ back) path) :
    MayFollowAll path (segs.map String.ofList) ∧
      found ∈ disk.search back ((segs.map String.ofList).foldl child path) := by
  induction exact generalizing path with
  | nil => exact ⟨trivial, member⟩
  | @cons step segment front segs own _ ih =>
    obtain ⟨first, bare⟩ := List.forall_mem_cons.mp bare
    rw [List.cons_append, search_exact tree own] at member
    split at member
    · rename_i passes
      obtain ⟨follow, there⟩ := ih bare member
      refine ⟨⟨⟨by simpa using first, fun dot none => ?_⟩, follow⟩, there⟩
      rw [String.toList_ofList] at none
      rw [dot, none, passes_dot_nil] at passes
      cases passes
    · cases member

private theorem isSome_node?_of_follow (tree : disk.IsTree) {place next : Place}
    (followed : disk.follow place segment = .ok next) : (disk.node? next).isSome = true := by
  have directory := node?_of_follow followed
  rw [follow, directory] at followed
  dsimp only at followed
  split at followed
  · cases followed
    rw [directory]
    rfl
  · split at followed
    · cases followed
      rw [tree.inside _ _ directory]
      rfl
    · split at followed
      · cases followed
      · split at followed
        · rename_i there
          cases followed
          exact there
        · cases followed

theorem isDirectory_iff : disk.isDirectory path = true ↔
    ∃ place, disk.locate path = .ok place ∧ disk.node? place = some .directory := by
  unfold isDirectory nodeAt?
  cases disk.locate path with
  | error failure => simp [Except.toOption]
  | ok place =>
    cases found : disk.node? place with
    | none => simp [Except.toOption, found]
    | some node => cases node <;> simp [Except.toOption, found]

theorem holds_of_locate {place : Place} (located : disk.locate path = .ok place)
    (there : (disk.node? place).isSome = true) : disk.holds path = true := by
  rw [holds, nodeAt?, located]
  exact there

private theorem passes_of_follow (tree : disk.IsTree) (bare : '/' ∉ segment) {here next : Place}
    (located : disk.locate path = .ok here) (followed : disk.follow here segment = .ok next)
    (there : disk.locate (child path (String.ofList segment)) = .ok next) :
    disk.passes path segment = true := by
  have directory : disk.isDirectory path = true :=
    isDirectory_iff.mpr ⟨here, located, node?_of_follow followed⟩
  have some := isSome_node?_of_follow tree followed
  unfold passes
  split
  · rename_i special
    have own : Path.IsName (String.ofList segment).toList := by
      rw [String.toList_ofList]
      refine ⟨?_, bare, ?_, ?_⟩ <;>
      · rintro rfl
        exact absurd special (by decide)
    rw [← String.toList_ofList (l := segment)] at followed
    obtain ⟨-, -, listed, -⟩ := (follow_name own).mp followed
    rw [directory, Bool.true_and, List.contains_iff_mem, children, located]
    exact mem_names.mpr listed
  · unfold allows
    split
    · exact directory
    · exact holds_of_locate there some

/-- Where segments lead on from a trail, what is found by steps for them and further steps is what is
found by these from the trail that the segments make. -/
theorem search_front (tree : disk.IsTree) (exact : List.Forall₂ Step.IsExact front segs)
    (trail : IsTrail path) (follow : MayFollowAll path (segs.map String.ofList))
    (admitted : Admits ((segs.map String.ofList).foldl child path)) {here place : Place}
    (located : disk.locate path = .ok here) (leads : disk.Leads here segs place) :
    disk.search (front ++ back) path =
      disk.search back ((segs.map String.ofList).foldl child path) := by
  induction exact generalizing path here with
  | nil => rfl
  | @cons step segment front segs own _ ih =>
    obtain ⟨first, later⟩ := follow
    obtain ⟨still, -⟩ := trail.child first
    obtain ⟨next, followed, leads⟩ := leads_cons.mp leads
    have there : disk.locate (child path (String.ofList segment)) = .ok next := by
      refine (trail.locate_child first (still.admits_of_foldl later admitted)).mpr ⟨here, located, ?_⟩
      rwa [String.toList_ofList]
    rw [List.cons_append, search_exact tree own,
      if_pos (passes_of_follow tree (by simpa using first.1) located followed there)]
    exact ih still later admitted there leads

end Disk

end PackageSheet
