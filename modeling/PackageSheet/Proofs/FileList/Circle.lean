import PackageSheet.Proofs.FileList.Tour

/-!
Which circles are reported. Every list that is reported lies on a circle; without the reported ones
there is no endless chain of references from a list that is done, so every component of such lists
that has a circle has a reported list (`Charted`); and in a component that is a single ring the
first list on the path is the only one that is ever reported (`RingKept`).
-/

namespace PackageSheet.Tour

/-- What is known of circles: reported lists lie on one, a list that is done refers to visited
lists, and chains of references that avoid the reported lists end. -/
structure Charted (site : Site) (tour : Tour) : Prop where
  sound : ∀ name, tour.assembly.Accuses name → site.OnCircle name
  closed : ∀ name other, tour.assembly.IsDone name → site.Refers name other →
    tour.assembly.slots.progress? other ≠ some .unvisited
  founded : ∀ name, tour.assembly.IsDone name →
    Acc (fun other name => site.Refers name other ∧ ¬ tour.assembly.Accuses other) name

/-- A list is the outermost of its component on a path. -/
def Outermost (site : Site) (path : List String) (name : String) : Prop :=
  ∃ above below, path = above ++ name :: below ∧ ∀ member ∈ below, ¬ site.Together name member

/-- In the component of a list at most one list is reported. While that one is in progress, no other
list of the component is below it, and after that the component is done. -/
structure RingKept (site : Site) (name : String) (tour : Tour) : Prop where
  single : ∀ first second, site.Together name first → tour.assembly.Accuses first →
    site.Together name second → tour.assembly.Accuses second → first = second
  placed : ∀ member, site.Together name member → tour.assembly.Accuses member →
    Outermost site tour.path member ∨
      ∀ other, site.Together name other → tour.assembly.IsDone other

variable {site : Site} {root name other top : String} {path : List String}
  {before after tour : Tour} {assembly first second : Assembly}

theorem Valid.pairwise (valid : Valid site tour) :
    tour.path.Pairwise fun inner outer => site.Reaches outer inner := by
  have : IsTrans String fun inner outer => site.Reaches outer inner :=
    ⟨fun _ _ _ one two => Relation.ReflTransGen.trans two one⟩
  exact List.isChain_iff_pairwise.mp (valid.linked.imp fun _ _ => Relation.ReflTransGen.single)

theorem Valid.reaches_head (valid : Valid site ⟨top :: path, assembly⟩)
    (busy : name ∈ top :: path) : site.Reaches name top := by
  rcases List.mem_cons.mp busy with rfl | below
  · exact .refl
  · exact List.rel_of_pairwise_cons valid.pairwise below

/-- A list in progress that is asked for by the innermost one lies on a circle. -/
theorem Valid.onCircle (valid : Valid site ⟨top :: path, assembly⟩)
    (busy : name ∈ top :: path) (edge : site.Refers top name) : site.OnCircle name :=
  .of_refers edge (valid.reaches_head busy)

theorem accuses_complain_circular {problem : Problem} {location : Option Location} :
    (assembly.complain (.circular other) problem location).Accuses name ↔
      name = other ∨ assembly.Accuses name := by
  simp [Assembly.Accuses]

private theorem isDone_begin {old : Progress} (known : assembly.slots.progress? other = some old)
    (done : (assembly.mark other .inProgress).IsDone name) : assembly.IsDone name := by
  obtain ⟨entries, found⟩ := done
  rw [Assembly.progress?_mark known] at found
  split at found
  · cases found
  · exact ⟨entries, found⟩

theorem isDone_finish {old : Progress} {entries : List Entry}
    (known : assembly.slots.progress? other = some old) :
    (assembly.mark other (.done entries)).IsDone name ↔ name = other ∨ assembly.IsDone name := by
  unfold Assembly.IsDone
  rw [Assembly.progress?_mark known]
  by_cases same : name = other <;> simp [same]

private theorem Charted.of_extends (charted : Charted site ⟨path, first⟩)
    (extension : first.Extends second)
    (sound : ∀ name, second.Accuses name → first.Accuses name ∨ site.OnCircle name)
    (same : ∀ name, second.IsDone name → first.IsDone name) {other : List String} :
    Charted site ⟨other, second⟩ where
  sound name accused := (sound name accused).elim (charted.sound name) id
  closed name other done edge unvisited :=
    charted.closed name other (same name done) edge (extension.unvisited other unvisited)
  founded name done :=
    Subrelation.accessible (fun {_ _} step => ⟨step.1, fun accused =>
      step.2 (extension.reported accused)⟩) (charted.founded name (same name done))

/-- A step keeps what is known of circles. A list that is left refers to lists that are done or
reported, so no chain from it that avoids the reported lists goes on for ever. -/
theorem Step.charted (step : Step site root before after) (valid : Valid site before)
    (charted : Charted site before) : Charted site after := by
  have extension := step.extends valid
  cases step with
  | write => exact charted.of_extends extension (fun _ => .inl) fun _ => id
  | undefined | ambiguous =>
    refine charted.of_extends extension (fun name accused => .inl ?_) fun _ => id
    simpa [Assembly.Accuses] using accused
  | circular edge busy =>
    refine charted.of_extends extension ?_ fun _ => id
    intro name accused
    rcases accuses_complain_circular.mp accused with rfl | known
    · exact .inr (valid.onCircle busy edge)
    · exact .inl known
  | enter new =>
    exact charted.of_extends extension (fun _ => .inl) fun _ => isDone_begin new
  | @leave path assembly name recipe found settled =>
    have head := valid.progress_of_head
    refine ⟨charted.sound, ?_, ?_⟩
    · intro done other finished edge unvisited
      have early := extension.unvisited other unvisited
      rcases (isDone_finish head).mp finished with rfl | before
      · rcases settled other edge with ⟨entries, known⟩ | ⟨busy, -⟩
        · rw [known] at early
          cases early
        · rw [(valid.busy other).mpr busy] at early
          cases early
      · exact charted.closed done other before edge early
    · intro done finished
      rcases (isDone_finish head).mp finished with rfl | before
      · constructor
        rintro other ⟨edge, spared⟩
        rcases settled other edge with known | ⟨-, accused⟩
        · exact charted.founded other known
        · exact absurd accused spared
      · exact charted.founded done before

private theorem Outermost.unique (one : Outermost site path name) (two : Outermost site path other)
    (together : site.Together name other) : name = other := by
  obtain ⟨above, below, rfl, clear⟩ := one
  obtain ⟨upper, lower, same, free⟩ := two
  rcases List.append_eq_append_iff.mp same with ⟨more, rfl, tail⟩ | ⟨more, rfl, tail⟩
  · cases more with
    | nil => exact (List.cons.inj tail).1
    | cons head more =>
      obtain ⟨rfl, rfl⟩ := List.cons.inj tail
      exact absurd together (clear other (by simp))
  · cases more with
    | nil => exact (List.cons.inj tail).1.symm
    | cons head more =>
      obtain ⟨rfl, rfl⟩ := List.cons.inj tail
      exact absurd together.symm (free name (by simp))

private theorem Outermost.enter (outermost : Outermost site path name) (other : String) :
    Outermost site (other :: path) name := by
  obtain ⟨above, below, rfl, clear⟩ := outermost
  exact ⟨other :: above, below, rfl, clear⟩

private theorem Outermost.leave (outermost : Outermost site (top :: path) name) :
    Outermost site path name ∨ name = top ∧ ∀ member ∈ path, ¬ site.Together name member := by
  obtain ⟨above, below, split, clear⟩ := outermost
  cases above with
  | nil =>
    obtain ⟨rfl, rfl⟩ := List.cons.inj split
    exact .inr ⟨rfl, clear⟩
  | cons head above =>
    obtain ⟨rfl, rfl⟩ := List.cons.inj split
    exact .inl ⟨above, below, rfl, clear⟩

private theorem Valid.outermost (valid : Valid site ⟨top :: path, assembly⟩) (ring : site.IsRing name)
    (together : site.Together name other) (busy : other ∈ top :: path)
    (edge : site.Refers top other) : Outermost site (top :: path) other := by
  obtain ⟨above, below, split⟩ := List.append_of_mem busy
  refine ⟨above, below, split, ?_⟩
  -- with a list of the ring below it, its predecessor in the ring would lie there, which is the top
  intro member deeper joined
  obtain ⟨before, rest, rfl⟩ := List.exists_cons_of_ne_nil (List.ne_nil_of_mem deeper)
  have linked : (other :: before :: rest).IsChain fun inner outer => site.Refers outer inner :=
    (split ▸ valid.linked : List.IsChain _ (above ++ _)).right_of_append
  have pairwise : (other :: before :: rest).Pairwise fun inner outer =>
      site.Reaches outer inner :=
    (List.pairwise_append.mp (split ▸ valid.pairwise : List.Pairwise _ (above ++ _))).2.1
  have step : site.Refers before other := (List.isChain_cons_cons.mp linked).1
  have reached : site.Reaches member before := by
    rcases List.mem_cons.mp deeper with rfl | further
    · exact .refl
    · exact List.rel_of_pairwise_cons (List.pairwise_cons.mp pairwise).2 further
  have one : site.Together name before :=
    together.trans ⟨joined.1.trans reached, .single step⟩
  have two : site.Together name top :=
    together.trans ⟨valid.reaches_head busy, .single edge⟩
  have same : before = top := ring.eq_of_refers one two together step edge
  have distinct : (above ++ other :: before :: rest).Nodup := split ▸ valid.nodup
  cases above with
  | nil =>
    have topEq : top = other := (List.cons.inj split).1
    simp [same, topEq] at distinct
  | cons head above =>
    have topEq : top = head := (List.cons.inj split).1
    simp [same, topEq] at distinct

private theorem Charted.isDone_of_together (charted : Charted site tour) (valid : Valid site tour)
    (done : tour.assembly.IsDone name) (clear : ∀ member ∈ tour.path, ¬ site.Together name member)
    (together : site.Together name other) : tour.assembly.IsDone other := by
  obtain ⟨reached, back⟩ := together
  induction reached with
  | refl => exact done
  | @tail before other reached edge ih =>
    -- a list that is done refers to no unvisited one, and the others of the ring are not in progress
    have known := charted.closed before other (ih (.head edge back)) edge
    rcases valid.cases_of_unique edge.unique with new | busy | finished
    · exact absurd new known
    · exact absurd ⟨reached.tail edge, back⟩ (clear other busy)
    · exact finished

private theorem RingKept.of_same {other : List String} (kept : RingKept site name ⟨path, first⟩)
    (extension : first.Extends second) (same : ∀ member, second.Accuses member → first.Accuses member)
    (stays : ∀ member, site.Together name member → first.Accuses member →
      Outermost site path member → Outermost site other member ∨
        ∀ member, site.Together name member → second.IsDone member) :
    RingKept site name ⟨other, second⟩ where
  single one two together accused joined known :=
    kept.single one two together (same one accused) joined (same two known)
  placed member together accused := by
    rcases kept.placed member together (same member accused) with outermost | done
    · exact stays member together (same member accused) outermost
    · right
      intro other joined
      obtain ⟨entries, found⟩ := done other joined
      exact ⟨entries, extension.done other entries found⟩

theorem Step.ringKept (step : Step site root before after) (valid : Valid site before)
    (charted : Charted site before) (ring : site.IsRing name) (kept : RingKept site name before) :
    RingKept site name after := by
  have extension := step.extends valid
  have arrived := step.valid valid
  have known := step.charted valid charted
  cases step with
  | write => exact kept.of_same extension (fun _ => id) fun _ _ _ => .inl
  | undefined | ambiguous =>
    refine kept.of_same extension ?_ fun _ _ _ => .inl
    intro member accused
    simpa [Assembly.Accuses] using accused
  | @circular path assembly top other edge busy =>
    have only (member : String) (together : site.Together name member)
        (accused : assembly.Accuses member) (joined : site.Together name other) :
        member = other := by
      rcases kept.placed member together accused with outermost | done
      · have innermost := valid.outermost ring joined busy edge
        exact outermost.unique innermost (together.symm.trans joined)
      · exact absurd busy (valid.not_mem_of_isDone (done other joined))
    constructor
    · intro first second one accused two suspected
      rcases accuses_complain_circular.mp accused with rfl | early <;>
        rcases accuses_complain_circular.mp suspected with rfl | before
      · rfl
      · exact (only second two before one).symm
      · exact only first one early two
      · exact kept.single first second one early two before
    · intro member together accused
      rcases accuses_complain_circular.mp accused with rfl | early
      · exact .inl (valid.outermost ring together busy edge)
      · exact kept.placed member together early
  | enter =>
    exact kept.of_same extension (fun _ => id) fun _ _ _ outermost => .inl (outermost.enter _)
  | @leave path assembly other recipe found settled =>
    apply kept.of_same extension (fun _ => id)
    intro member together accused outermost
    rcases outermost.leave with stays | ⟨rfl, clear⟩
    · exact .inl stays
    · right
      intro other joined
      have done : (assembly.mark member (.done (site.content assembly.entriesOf recipe))).IsDone
          member := (isDone_finish valid.progress_of_head).mpr (.inl rfl)
      exact known.isDone_of_together arrived done clear (together.symm.trans joined)

/-- Between requests, all lists that a finished one reaches are done. -/
theorem Charted.isDone_of_reaches (charted : Charted site ⟨[], assembly⟩)
    (valid : Valid site ⟨[], assembly⟩) (done : assembly.IsDone name)
    (reached : site.Reaches name other) : assembly.IsDone other := by
  induction reached with
  | refl => exact done
  | tail reached edge ih =>
    rcases valid.cases_of_unique edge.unique with new | busy | finished
    · exact absurd new (charted.closed _ _ ih edge)
    · cases busy
    · exact finished

/-- Between requests, a component of finished lists that has a circle has a reported list. -/
theorem Charted.exists_accused (charted : Charted site ⟨[], assembly⟩)
    (valid : Valid site ⟨[], assembly⟩) (done : assembly.IsDone name)
    (circle : site.OnCircle name) :
    ∃ member, site.Together name member ∧ assembly.Accuses member := by
  induction charted.founded name done with
  | intro name _ ih =>
    obtain ⟨next, edge, back⟩ := Relation.TransGen.head'_iff.mp circle
    have together : site.Together name next := ⟨.single edge, back⟩
    by_cases accused : assembly.Accuses next
    · exact ⟨next, together, accused⟩
    · have finished := charted.isDone_of_reaches valid done together.1
      obtain ⟨member, joined, known⟩ :=
        ih next ⟨edge, accused⟩ finished (together.onCircle circle)
      exact ⟨member, together.trans joined, known⟩

end PackageSheet.Tour
