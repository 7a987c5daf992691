import PackageSheet.Proofs.FileList.Content

namespace PackageSheet.Entry

variable {entries others more : List Entry} {entry : Entry} {source : Path}

theorem mem_gather (member : entry ∈ gather entries others) : entry ∈ entries ∨ entry ∈ others := by
  induction others generalizing entries with
  | nil => exact .inl member
  | cons other others ih =>
    rcases ih member with known | later
    · split at known
      · exact .inl known
      · exact (List.mem_append.mp known).imp_right fun own => by
          rw [List.mem_singleton.mp own]
          exact List.mem_cons_self
    · exact .inr (List.mem_cons_of_mem _ later)

/-- No file is there twice. -/
def Distinct (entries : List Entry) : Prop :=
  entries.Pairwise fun one other => one.source.same other.source = false

private theorem covers_eq_false_iff :
    covers entries source = false ↔ ∀ entry ∈ entries, entry.source.same source = false := by
  simp [covers]

theorem Distinct.gather (distinct : Distinct entries) (others : List Entry) :
    Distinct (Entry.gather entries others) := by
  induction others generalizing entries with
  | nil => exact distinct
  | cons other others ih =>
    refine ih ?_
    split
    · exact distinct
    · rename_i uncovered
      have apart := covers_eq_false_iff.mp (Bool.eq_false_of_not_eq_true uncovered)
      refine List.pairwise_append.mpr ⟨distinct, List.pairwise_singleton _ _, ?_⟩
      intro entry member last same
      rw [List.mem_singleton.mp same]
      exact apart entry member

theorem Distinct.sublist (distinct : Distinct entries) (kept : others.Sublist entries) :
    Distinct others :=
  List.Pairwise.sublist kept distinct

theorem distinct_iff_sources :
    Distinct entries ↔
      (entries.map (·.source)).Pairwise fun one other => one.same other = false := by
  rw [Distinct, List.pairwise_map]

private theorem firsts_of_distinct (distinct : Distinct entries) : firsts entries = entries := by
  induction entries with
  | nil => rfl
  | cons entry entries ih =>
    obtain ⟨apart, distinct⟩ := List.pairwise_cons.mp distinct
    rw [firsts, ih distinct, List.filter_eq_self.mpr]
    intro other member
    have different := apart other member
    simpa [Path.same, Bool.beq_comm] using different

private theorem mem_gather_iff (distinct : Distinct more) :
    entry ∈ gather entries more ↔
      entry ∈ entries ∨ entry ∈ more ∧ covers entries entry.source = false := by
  simp [gather_eq_append_filter, firsts_of_distinct distinct]

private theorem covers_gather (entries more : List Entry) (source : Path) :
    covers (gather entries more) source = (covers entries source || covers more source) := by
  induction more generalizing entries with
  | nil => simp [gather, covers]
  | cons entry more ih =>
    have head : covers (entry :: more) source =
        (entry.source.same source || covers more source) := rfl
    rw [gather, ih, head]
    split
    · rename_i known
      by_cases same : entry.source.same source = true
      · rw [covers_of_same same] at known
        simp [known]
      · simp [same]
    · simp [covers, Bool.or_assoc]

/-- Of several lists, each with one entry for each of its files, those entries are gathered that are
for a file which no list in front has. -/
theorem mem_gather_flatMap {α : Type} {list : α → List Entry} {items : List α}
    (distinct : ∀ item ∈ items, Distinct (list item)) :
    entry ∈ gather entries (items.flatMap list) ↔
      entry ∈ entries ∨ covers entries entry.source = false ∧
        ∃ before item rest, items = before ++ item :: rest ∧ entry ∈ list item ∧
          ∀ other ∈ before, covers (list other) entry.source = false := by
  induction items generalizing entries with
  | nil => simp [gather]
  | cons first items ih =>
    obtain ⟨own, later⟩ := List.forall_mem_cons.mp distinct
    rw [List.flatMap_cons, gather_append, ih later, mem_gather_iff own, covers_gather]
    constructor
    · rintro ((known | ⟨listed, fresh⟩) | ⟨fresh, before, item, rest, split, listed, front⟩)
      · exact .inl known
      · exact .inr ⟨fresh, [], first, items, rfl, listed, List.forall_mem_nil _⟩
      · obtain ⟨fresh, apart⟩ := Bool.or_eq_false_iff.mp fresh
        exact .inr ⟨fresh, first :: before, item, rest, by rw [split]; rfl, listed,
          List.forall_mem_cons.mpr ⟨apart, front⟩⟩
    · rintro (known | ⟨fresh, before, item, rest, split, listed, front⟩)
      · exact .inl (.inl known)
      · cases before with
        | nil =>
          obtain ⟨rfl, rfl⟩ := List.cons.inj split
          exact .inl (.inr ⟨listed, fresh⟩)
        | cons head before =>
          obtain ⟨rfl, tail⟩ := List.cons.inj split
          obtain ⟨apart, front⟩ := List.forall_mem_cons.mp front
          exact .inr ⟨by rw [fresh, apart]; rfl, before, item, rest, tail, listed, front⟩

end PackageSheet.Entry
