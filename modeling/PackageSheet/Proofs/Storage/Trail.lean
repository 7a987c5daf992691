import PackageSheet.Proofs.Storage.Tree

/-!
Trails: the paths that others are spelled behind, name by name, while a pattern is followed. Nothing
of the trail `.` is left in the paths behind it, all of any other one is (`IsTrail.foldl_child`), and
a path behind a trail leads where its further steps do from the place of the trail
(`IsTrail.locate_foldl`).
-/

namespace PackageSheet

namespace Disk

variable {disk : Disk} {path : Path} {place last : Place} {step : String}

/-- A path that others are spelled behind: `.`, of which nothing is left in them, or one that all of
is left of. -/
structure IsTrail (path : Path) : Prop where
  filled : path.text.toList ≠ []
  plain : path.components = [.current] → path = ⟨"."⟩

/-- What is left of a trail in the components of the paths behind it. -/
def trailSteps (path : Path) : List Component :=
  if path = ⟨"."⟩ then [] else path.components

/-- A text can be put behind a trail: it is not empty behind `.`. -/
def MayFollow (path : Path) (step : String) : Prop :=
  '/' ∉ step.toList ∧ (path = ⟨"."⟩ → step.toList ≠ [])

theorem child_dot (step : String) : child ⟨"."⟩ step = ⟨step⟩ :=
  if_pos (beq_self_eq_true _)

theorem IsTrail.child_eq (trail : IsTrail path) (apart : path ≠ ⟨"."⟩) (step : String) :
    child path step = path.join ⟨step⟩ := by
  exact if_neg fun same => apart (trail.plain (Path.same_dot.mp same))

private theorem components_of_isStep (bare : '/' ∉ step.toList)
    (counts : Path.isStep step.toList = true) :
    (Path.mk step).components = Path.steps [step.toList] := by
  have segments := Path.segments_of_bare bare
  have other : step.toList ≠ ['.'] := by
    intro dot
    rw [dot] at counts
    exact absurd counts (by decide)
  have divided : (Path.mk step).divide = (none, [step.toList]) := by
    unfold Path.divide
    rw [segments]
    exact if_neg other
  rw [Path.components, divided]
  rfl

theorem IsTrail.child (trail : IsTrail path) (follows : MayFollow path step) :
    IsTrail (Disk.child path step) ∧
      trailSteps (Disk.child path step) = trailSteps path ++ Path.steps [step.toList] := by
  obtain ⟨bare, filled⟩ := follows
  have apart {next : Path} (text : next.text.toList ≠ [])
      (steps : next.components = trailSteps path ++ Path.steps [step.toList])
      (other : next.components ≠ [.current]) :
      IsTrail next ∧ trailSteps next = trailSteps path ++ Path.steps [step.toList] := by
    refine ⟨⟨text, fun same => absurd same other⟩, ?_⟩
    have different : next ≠ ⟨"."⟩ := fun dot => other (dot ▸ Path.components_dot)
    rw [trailSteps, if_neg different, steps]
  have current (front : List Component) (counts : Path.isStep step.toList = true) :
      front ++ Path.steps [step.toList] ≠ [.current] := by
    rw [Path.steps_cons_of_isStep counts, Path.steps_nil]
    intro same
    have last := congrArg List.getLast? same
    rw [List.getLast?_concat] at last
    exact (Path.step_ne_anchor _).2 (Option.some.inj last)
  by_cases dot : path = ⟨"."⟩
  · subst dot
    rw [child_dot]
    by_cases counts : Path.isStep step.toList = true
    · have steps := components_of_isStep bare counts
      exact apart (filled rfl) steps (steps ▸ current [] counts)
    · -- Only another `.` is idle here.
      have same : step = "." := by
        rw [← String.toList_inj]
        simpa [Path.isStep, filled rfl] using counts
      subst same
      exact ⟨trail, rfl⟩
  · have joined := Path.components_join_bare bare trail.filled
    obtain ⟨more, text⟩ := Path.exists_text_join path bare
    rw [trail.child_eq dot]
    refine apart ?_ ?_ ?_
    · rw [text]
      exact List.append_ne_nil_of_left_ne_nil trail.filled more
    · rw [joined, trailSteps, if_neg dot]
    · rw [joined]
      by_cases counts : Path.isStep step.toList = true
      · exact current _ counts
      · rw [Path.steps_cons_of_idle ((Bool.not_eq_true _).mp counts), Path.steps_nil,
          List.append_nil]
        exact fun same => dot (trail.plain same)

theorem admits_dot : Admits ⟨"."⟩ :=
  ⟨by decide, by decide, by decide⟩

theorem locate_dot : disk.locate ⟨"."⟩ = .ok place ↔
    disk.node? disk.start = some .directory ∧ disk.start = place := by
  have segments : Path.segments (Path.mk ".").text.toList = [['.']] := by decide
  have start : disk.startOf ⟨"."⟩ = disk.start := rfl
  rw [locate_eq_ok_iff, and_iff_right admits_dot, segments, start, leads_singleton,
    follow_idle (.inr rfl)]

/-- If a path with one more step is looked up, so is the path. -/
theorem Admits.of_join (admitted : Admits (path.join ⟨step⟩)) (bare : '/' ∉ step.toList)
    (filled : path.text.toList ≠ []) : Admits path := by
  obtain ⟨clean, -, short⟩ := admitted
  obtain ⟨more, joined⟩ := Path.exists_text_join path bare
  have text : (path.join ⟨step⟩).text = path.text ++ String.ofList more := by
    rw [← String.toList_inj, joined, String.toList_append, String.toList_ofList]
  refine ⟨fun null => clean ?_, filled, ?_⟩
  · rw [joined]
    exact List.mem_append_left more null
  · rw [text, String.utf8ByteSize_append] at short
    omega

private theorem IsTrail.admits_of_child (trail : IsTrail path) (bare : '/' ∉ step.toList)
    (admitted : Admits (Disk.child path step)) : Admits path := by
  by_cases dot : path = ⟨"."⟩
  · exact dot ▸ admits_dot
  · rw [trail.child_eq dot] at admitted
    exact admitted.of_join bare trail.filled

/-- A trail with one more step leads where that step does from the place of the trail. -/
theorem IsTrail.locate_child (trail : IsTrail path) (follows : MayFollow path step)
    (admitted : Admits (Disk.child path step)) :
    disk.locate (Disk.child path step) = .ok last ↔
      ∃ place, disk.locate path = .ok place ∧ disk.follow place step.toList = .ok last := by
  by_cases dot : path = ⟨"."⟩
  · subst dot
    rw [child_dot] at admitted ⊢
    have start : disk.startOf ⟨step⟩ = disk.start :=
      if_neg (by simp [Path.isAbsolute_of_bare follows.1])
    have alone : disk.locate ⟨step⟩ = .ok last ↔ disk.follow disk.start step.toList = .ok last := by
      rw [locate_eq_ok_iff, and_iff_right admitted, start, Path.segments_of_bare follows.1,
        leads_singleton]
    rw [alone]
    constructor
    · intro followed
      exact ⟨disk.start, locate_dot.mpr ⟨node?_of_follow followed, rfl⟩, followed⟩
    · rintro ⟨place, located, followed⟩
      obtain ⟨-, rfl⟩ := locate_dot.mp located
      exact followed
  · rw [trail.child_eq dot] at admitted ⊢
    exact locate_join follows.1 (admitted.of_join follows.1 trail.filled) admitted

/-- Texts can be put behind a trail one after another. -/
def MayFollowAll (path : Path) : List String → Prop
  | [] => True
  | name :: names => MayFollow path name ∧ MayFollowAll (Disk.child path name) names

/-- Behind a trail there is another one for some steps, with these steps behind its own. -/
theorem IsTrail.foldl_child {names : List String} (trail : IsTrail path)
    (follow : MayFollowAll path names) :
    IsTrail (names.foldl Disk.child path) ∧
      trailSteps (names.foldl Disk.child path) =
        trailSteps path ++ Path.steps (names.map String.toList) := by
  induction names generalizing path with
  | nil => exact ⟨trail, by simp⟩
  | cons name names ih =>
    obtain ⟨own, later⟩ := follow
    obtain ⟨next, first⟩ := trail.child own
    obtain ⟨still, steps⟩ := ih next later
    refine ⟨still, ?_⟩
    rw [List.foldl_cons, steps, first, List.append_assoc, ← Path.steps_append]
    rfl

theorem IsTrail.admits_of_foldl {names : List String} (trail : IsTrail path)
    (follow : MayFollowAll path names) (admitted : Admits (names.foldl Disk.child path)) :
    Admits path := by
  induction names generalizing path with
  | nil => exact admitted
  | cons name names ih =>
    obtain ⟨own, later⟩ := follow
    exact trail.admits_of_child own.1 (ih (trail.child own).1 later admitted)

/-- A trail with more steps leads where they do from the place of the trail. -/
theorem IsTrail.locate_foldl {names : List String} (trail : IsTrail path)
    (follow : MayFollowAll path names) (admitted : Admits (names.foldl Disk.child path)) :
    disk.locate (names.foldl Disk.child path) = .ok last ↔
      ∃ place, disk.locate path = .ok place ∧
        disk.Leads place (names.map String.toList) last := by
  induction names generalizing path with
  | nil => simp
  | cons name names ih =>
    obtain ⟨own, later⟩ := follow
    have next := (trail.child own).1
    have further (middle : Place) : disk.locate (Disk.child path name) = .ok middle ↔
        ∃ place, disk.locate path = .ok place ∧ disk.follow place name.toList = .ok middle :=
      trail.locate_child own (next.admits_of_foldl later admitted)
    rw [List.foldl_cons, ih next later admitted, List.map_cons]
    simp only [leads_cons, further]
    constructor
    · rintro ⟨middle, ⟨place, located, followed⟩, leads⟩
      exact ⟨place, located, middle, followed, leads⟩
    · rintro ⟨place, located, middle, followed, leads⟩
      exact ⟨middle, ⟨place, located, followed⟩, leads⟩

/-- Behind a trail other than `.`, all texts without slashes can be put one after another. -/
theorem IsTrail.mayFollowAll_of_ne {names : List String} (trail : IsTrail path)
    (apart : trailSteps path ≠ []) (bare : ∀ name ∈ names, '/' ∉ name.toList) :
    MayFollowAll path names := by
  induction names generalizing path with
  | nil => trivial
  | cons name names ih =>
    obtain ⟨own, bare⟩ := List.forall_mem_cons.mp bare
    have first : MayFollow path name := by
      refine ⟨own, fun dot => absurd ?_ apart⟩
      rw [trailSteps, if_pos dot]
    obtain ⟨next, steps⟩ := trail.child first
    refine ⟨first, ih next ?_ bare⟩
    rw [steps]
    exact List.append_ne_nil_of_left_ne_nil apart _

theorem IsTrail.mayFollowAll_of_names {names : List String} (trail : IsTrail path)
    (named : ∀ name ∈ names, Path.IsName name.toList) : MayFollowAll path names := by
  induction names generalizing path with
  | nil => trivial
  | cons name names ih =>
    obtain ⟨own, named⟩ := List.forall_mem_cons.mp named
    have first : MayFollow path name := ⟨own.bare, fun _ => own.ne_nil⟩
    exact ⟨first, ih (trail.child first).1 named⟩

theorem IsTrail.components_foldl {names : List String} (trail : IsTrail path)
    (named : ∀ name ∈ names, Path.IsName name.toList) (some : names ≠ []) :
    (names.foldl Disk.child path).components = trailSteps path ++ names.map .name := by
  have steps : Path.steps (names.map String.toList) = names.map .name := by
    rw [Path.steps_of_names (List.forall_mem_map.mpr named), List.map_map]
    simp [Function.comp_def]
  obtain ⟨-, all⟩ := trail.foldl_child (trail.mayFollowAll_of_names named)
  rw [steps] at all
  rw [← all, trailSteps, if_neg]
  intro dot
  rw [trailSteps, if_pos dot] at all
  have none : names.map Component.name = [] := (List.append_eq_nil_iff.mp all.symm).2
  exact some (List.map_eq_nil_iff.mp none)

end Disk

end PackageSheet
