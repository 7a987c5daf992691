import PackageSheet.Proofs.FileList.Circle
import PackageSheet.Proofs.FileList.Visit

namespace PackageSheet

namespace Tour

/-- Each list that is done holds its listing. -/
def Faithful (site : Site) (acyclic : site.Acyclic) (assembly : Assembly) : Prop :=
  ∀ name entries, assembly.slots.progress? name = some (.done entries) →
    entries = site.listing acyclic name

/-- A root reaches the lists in progress, and lists that it does not reach stay as they were. -/
structure Confined (site : Site) (root : String) (start : Assembly) (tour : Tour) : Prop where
  reached : ∀ name ∈ tour.path, site.Reaches root name
  kept : ∀ name, ¬ site.Reaches root name →
    tour.assembly.slots.progress? name = start.slots.progress? name

variable {site : Site} {acyclic : site.Acyclic} {root name : String} {before after : Tour}
  {start assembly : Assembly}

/-- A step keeps what the lists hold. A list is left when all that it refers to is done, since
without circles nothing is ever reported for one. -/
theorem Step.faithful (step : Step site root before after) (valid : Valid site before)
    (charted : Charted site before) (faithful : Faithful site acyclic before.assembly) :
    Faithful site acyclic after.assembly := by
  cases step with
  | write | undefined | ambiguous | circular => exact faithful
  | enter new =>
    intro other entries found
    rw [Assembly.progress?_mark new] at found
    split at found
    · cases found
    · exact faithful other entries found
  | @leave path assembly name recipe single settled =>
    intro other entries found
    rw [Assembly.progress?_mark valid.progress_of_head] at found
    split at found
    · rename_i same
      subst same
      have own : entries = site.content assembly.entriesOf recipe := by
        cases found
        rfl
      rw [own, Site.listing_eq acyclic single]
      apply Site.content_congr
      intro next member unique
      rcases settled next ⟨⟨recipe, single, member⟩, unique⟩ with ⟨held, done⟩ | ⟨-, accused⟩
      · rw [Assembly.entriesOf_eq done]
        exact faithful next held done
      · exact absurd (charted.sound next accused) (acyclic next)
    · exact faithful other entries found

/-- A step enters only lists that the root reaches. -/
theorem Step.confined (step : Step site root before after) (valid : Valid site before)
    (confined : Confined site root start before) : Confined site root start after := by
  cases step with
  | write | undefined | ambiguous | circular => exact ⟨confined.reached, confined.kept⟩
  | @enter path assembly name new unique asked =>
    have reached : site.Reaches root name := by
      cases path with
      | nil => exact asked ▸ .refl
      | cons top path => exact (confined.reached top List.mem_cons_self).tail asked
    constructor
    · intro other member
      rcases List.mem_cons.mp member with rfl | below
      · exact reached
      · exact confined.reached other below
    · intro other apart
      have different : other ≠ name := fun same => apart (same ▸ reached)
      rw [Assembly.progress?_mark new, if_neg different]
      exact confined.kept other apart
  | @leave path assembly name recipe found settled =>
    constructor
    · intro other member
      exact confined.reached other (.tail _ member)
    · intro other apart
      have different : other ≠ name := fun same =>
        apart (same ▸ confined.reached name List.mem_cons_self)
      rw [Assembly.progress?_mark valid.progress_of_head, if_neg different]
      exact confined.kept other apart

theorem Steps.confined (steps : Steps site root ⟨[], start⟩ after)
    (valid : Valid site ⟨[], start⟩) : Confined site root start after := by
  induction steps with
  | refl => exact ⟨nofun, fun _ _ => rfl⟩
  | tail earlier step ih => exact step.confined (Steps.valid earlier valid) ih

end Tour

namespace Site

variable {site : Site} {name : String} {assembly : Assembly}

open Tour

theorem visit_of_isDone (done : assembly.IsDone name) (budget : Nat) :
    site.visit budget name assembly = assembly := by
  obtain ⟨entries, found⟩ := done
  simp [visit, found]

/-- A request for a list without exactly one rule is a complaint, the same one whatever was done and
reported before. -/
theorem visit_eq_complain (several : ¬ (site.only? name).isSome) : ∃ fault problem location,
    ∀ assembly, Valid site ⟨[], assembly⟩ → ∀ budget,
      site.visit budget name assembly = assembly.complain fault problem location := by
  cases rules : site.recipes name with
  | nil =>
    refine ⟨.undefined name, .undefinedList name, none, fun assembly valid budget => ?_⟩
    have absent : assembly.slots.progress? name = none := by
      simpa [rules] using valid.declared name
    simp only [visit, absent]
  | cons first others =>
    cases others with
    | nil => exact absurd (by simp [isSome_only?_iff, rules]) several
    | cons second others =>
      refine ⟨.ambiguous name, .ambiguousList name (others.length + 2), some first.location,
        fun assembly valid budget => ?_⟩
      have declared : (assembly.slots.progress? name).isSome :=
        (valid.declared name).mpr (by simp [rules])
      obtain ⟨progress, known⟩ := Option.isSome_iff_exists.mp declared
      have new : progress = .unvisited :=
        by_contra fun begun => several (valid.begun name progress known begun)
      simp only [visit, known, new, rules]

theorem isDone_resolve_iff (valid : Valid site ⟨[], assembly⟩) :
    (site.resolve name assembly).2.IsDone name ↔ (site.only? name).isSome := by
  obtain ⟨steps, done⟩ := resolve_tour valid name
  exact ⟨(steps.valid valid).unique_of_isDone, done⟩

/-- A request yields entries exactly for a list that one rule defines. -/
theorem isSome_resolve_iff (valid : Valid site ⟨[], assembly⟩) :
    (site.resolve name assembly).1.isSome ↔ (site.only? name).isSome :=
  Assembly.isDone_iff.symm.trans (isDone_resolve_iff valid)

/-- The same request once more yields the same and changes nothing. -/
theorem resolve_again (valid : Valid site ⟨[], assembly⟩) :
    site.resolve name (site.resolve name assembly).2 = site.resolve name assembly := by
  have stable (budget : Nat) : site.visit budget name (site.resolve name assembly).2 =
      (site.resolve name assembly).2 := by
    by_cases unique : (site.only? name).isSome
    · exact visit_of_isDone ((isDone_resolve_iff valid).mpr unique) budget
    · obtain ⟨fault, problem, location, complains⟩ := visit_eq_complain unique
      have once : (site.resolve name assembly).2 = assembly.complain fault problem location :=
        complains assembly valid _
      have twice := complains (assembly.complain fault problem location) (valid.of_slots rfl) budget
      rw [once, twice]
      exact Assembly.complain_of_mem (Assembly.mem_reported_complain.mpr (.inl rfl))
  unfold resolve at stable ⊢
  rw [stable]

/-- A request that changes nothing changes nothing after more was done and reported either. -/
theorem resolve_of_extends {after : Assembly} (early : Valid site ⟨[], assembly⟩)
    (late : Valid site ⟨[], after⟩) (grown : assembly.Extends after)
    (idle : (site.resolve name assembly).2 = assembly) : (site.resolve name after).2 = after := by
  by_cases unique : (site.only? name).isSome
  · have done : (site.resolve name assembly).2.IsDone name :=
      (isDone_resolve_iff early).mpr unique
    rw [idle] at done
    obtain ⟨entries, found⟩ := done
    exact visit_of_isDone ⟨entries, grown.done name entries found⟩ _
  · obtain ⟨fault, problem, location, complains⟩ := visit_eq_complain unique
    have complained : assembly.complain fault problem location = assembly :=
      (complains assembly early _).symm.trans idle
    have known : fault ∈ assembly.journal.reported := by
      rw [← complained]
      exact Assembly.mem_reported_complain.mpr (.inl rfl)
    exact (complains after late _).trans (Assembly.complain_of_mem (grown.reported known))

end Site

end PackageSheet
