import PackageSheet.Proofs.FileList.Ledger
import PackageSheet.Proofs.Session.Run

namespace PackageSheet

namespace Session

variable {session : Session} {name : String} {queries : List Query}

private theorem isDone_of_requested (ready : session.Ready) (asked : .fileList name ∈ queries)
    (unique : (session.site.only? name).isSome) :
    (session.askAll queries).assembly.IsDone name := by
  obtain ⟨early, late, rfl⟩ := List.append_of_mem asked
  have before := leads_askAll ready early
  have there := before.ready ready
  have request := leads_fileList there name
  have thenReady := request.ready there
  rw [← before.alike.only?_eq] at unique
  obtain ⟨entries, done⟩ := (Site.isDone_resolve_iff there.valid).mpr unique
  have rest := leads_askAll thenReady late
  have after : session.askAll (early ++ .fileList name :: late) =
      ((session.askAll early).fileList name).2.askAll late := by
    simp [askAll, ask]
  rw [after]
  exact ⟨entries, (rest.runs.extends thenReady.valid).done name entries done⟩

/-- Faults are reported as they become known, whatever is asked. -/
theorem Leads.balanced {after : Session} {since : List Diagnostic} (leads : session.Leads after)
    (ready : session.Ready) (held : session.assembly.Balanced since) :
    after.assembly.Balanced since := by
  let known (tour : Tour) : Prop := tour.assembly.Balanced since
  have reached : known ⟨[], after.assembly⟩ :=
    leads.invariant ready held fun _ _ _ step _ held => step.balanced held
  exact reached

private theorem Leads.ringKept {site : Site} {sheet : Sheet} {entries : List JournalEntry}
    {after : Session} (leads : (begin site sheet entries).Leads after)
    (ring : (begin site sheet entries).site.IsRing name) :
    Tour.RingKept (begin site sheet entries).site name ⟨[], after.assembly⟩ :=
  leads.invariant_charted ⟨nofun, nofun⟩ fun _ _ _ step valid charted held =>
    step.ringKept valid charted ring held

/-- Cycle detection is sound and complete. -/
theorem circles_reported (site : Site) (sheet : Sheet) (entries : List JournalEntry)
    (queries : List Query) :
    let session := begin site sheet entries
    ∃ reports, (session.askAll queries).diagnostics = session.diagnostics ++ reports ∧
      (∀ name, ListFault.countOf (· = .circular name) reports ≤ 1) ∧
      (∀ d ∈ reports, d.code = .circularReference →
        ∃ name, session.site.OnCircle name ∧ (ListFault.circular name).Reports d) ∧
      ∀ requested name, .fileList requested ∈ queries → session.site.Reaches requested name →
        session.site.OnCircle name →
          (∃ member, session.site.Together name member ∧
            ∃ d ∈ reports, (ListFault.circular member).Reports d) ∧
          (session.site.IsRing name → ListFault.countOf
            (fun fault => ∃ member, session.site.Together name member ∧ fault = .circular member)
            reports = 1) := by
  classical
  intro session
  have ready : session.Ready := ready_begin site sheet entries
  have leads : session.Leads (session.askAll queries) := leads_askAll ready queries
  have valid := leads.runs.valid ready.valid
  have charted := leads.charted
  have balanced : (session.askAll queries).assembly.Balanced session.diagnostics :=
    leads.balanced ready (.of_reported_nil rfl)
  obtain ⟨reports, split, known, counted⟩ := balanced.exists_fresh
  have reported (sort : ListFault → Prop) (fault : ListFault) (sorted : sort fault)
      (member : fault ∈ (session.askAll queries).assembly.journal.reported) :
      0 < ListFault.countOf sort reports := by
    rw [counted]
    exact List.countP_pos_iff.mpr ⟨fault, member, decide_eq_true sorted⟩
  refine ⟨reports, split, ?_, ?_, ?_⟩
  · intro name
    rw [counted]
    apply ListFault.countP_le_one balanced.nodup
    rintro fault - other - rfl rfl
    rfl
  · intro d member coded
    obtain ⟨fault, held, report⟩ := known d member (by rw [coded]; rfl)
    cases fault with
    | undefined => cases (congrArg Diagnostic.code report).symm.trans coded
    | ambiguous =>
      obtain ⟨count, location, same⟩ := report
      cases (congrArg Diagnostic.code same).symm.trans coded
    | circular name => exact ⟨name, charted.sound name held, report⟩
  · intro requested name asked reached circle
    have done := isDone_of_requested ready asked (Site.Reaches.unique reached circle.unique)
    have finished := charted.isDone_of_reaches valid done reached
    obtain ⟨member, together, accused⟩ := charted.exists_accused valid finished circle
    constructor
    · have positive := reported (· = .circular member) (.circular member) rfl accused
      obtain ⟨fault, rfl, d, own, report⟩ := ListFault.exists_report_of_countOf_pos positive
      exact ⟨member, together, d, own, report⟩
    · intro ring
      have kept := leads.ringKept ring
      apply Nat.le_antisymm
      · rw [counted]
        apply ListFault.countP_le_one balanced.nodup
        rintro fault held other also ⟨first, one, rfl⟩ ⟨second, two, rfl⟩
        exact congrArg _ (kept.single first second one held two also)
      · exact reported _ (.circular member) ⟨member, together, rfl⟩ accused

/-- Two lists of which one includes and the other excludes the other one. -/
def paired : Sheet where
  rules :=
    [{ name := "files", parameter := some "left", properties := [⟨"include", ["right"], {}⟩] },
     { name := "files", parameter := some "right", properties := [⟨"exclude", ["left"], {}⟩] }]

/-- A place without files. -/
def emptyPlace : Site where
  scope := { sheet := {} }
  storage := .inMemory {}

theorem refers_paired {name other : String} :
    (begin emptyPlace paired []).site.Refers name other ↔
      name = "left" ∧ other = "right" ∨ name = "right" ∧ other = "left" := by
  constructor
  · intro edge
    obtain ⟨rule, own, rfl, raw, token, rfl⟩ := edge.exists_rule
    rcases List.mem_pair.mp own with rfl | rfl
    · have list : raw = "right" := by simpa [Rule.view, Rule.property?] using token
      rw [list, Site.value_expand (by decide)]
      exact .inl ⟨rfl, rfl⟩
    · have list : raw = "left" := by simpa [Rule.view, Rule.property?] using token
      rw [list, Site.value_expand (by decide)]
      exact .inr ⟨rfl, rfl⟩
  · rintro (⟨rfl, rfl⟩ | ⟨rfl, rfl⟩)
    · refine ⟨⟨_, rfl, Site.mem_references_recipe.mpr ⟨"right", ?_, ?_⟩⟩, ?_⟩
      · decide
      · exact Site.value_expand (by decide) _
      · exact Site.isSome_only?_iff.mpr (by decide)
    · refine ⟨⟨_, rfl, Site.mem_references_recipe.mpr ⟨"left", ?_, ?_⟩⟩, ?_⟩
      · decide
      · exact Site.value_expand (by decide) _
      · exact Site.isSome_only?_iff.mpr (by decide)

private theorem isRing_paired : (begin emptyPlace paired []).site.IsRing "left" := by
  have there := refers_paired.mpr (.inl ⟨rfl, rfl⟩)
  have back := refers_paired.mpr (.inr ⟨rfl, rfl⟩)
  refine ⟨.head there (.single back), ?_⟩
  intro member together
  have ends : member = "left" ∨ member = "right" := by
    rcases Relation.ReflTransGen.cases_tail together.1 with same | ⟨last, -, edge⟩
    · exact .inl same
    · rcases refers_paired.mp edge with ⟨-, same⟩ | ⟨-, same⟩
      · exact .inr same
      · exact .inl same
  rcases ends with rfl | rfl
  · refine ⟨"right", ⟨⟨.single there, .single back⟩, there⟩, ?_⟩
    rintro other ⟨_, edge⟩
    simpa using refers_paired.mp edge
  · refine ⟨"left", ⟨⟨.refl, .refl⟩, back⟩, ?_⟩
    rintro other ⟨_, edge⟩
    simpa using refers_paired.mp edge

theorem circles_reported_paired : ∃ reports,
    ((begin emptyPlace paired []).askAll [.fileList "right", .fileList "left"]).diagnostics =
      (begin emptyPlace paired []).diagnostics ++ reports ∧
    ListFault.countOf (fun fault => ∃ member,
      (begin emptyPlace paired []).site.Together "left" member ∧ fault = .circular member)
      reports = 1 := by
  have there := refers_paired.mpr (.inr ⟨rfl, rfl⟩)
  obtain ⟨reports, split, -, -, complete⟩ :=
    circles_reported emptyPlace paired [] [.fileList "right", .fileList "left"]
  obtain ⟨-, single⟩ :=
    complete "right" "left" List.mem_cons_self (.single there) isRing_paired.1
  exact ⟨reports, split, single isRing_paired⟩

end Session

end PackageSheet
