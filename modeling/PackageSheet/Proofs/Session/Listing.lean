import PackageSheet.Proofs.Session.Run

namespace PackageSheet.Session

/-- On the way from its beginning, a session without circles keeps to the listings. -/
theorem Leads.faithful {site : Site} {sheet : Sheet} {entries : List JournalEntry}
    {after : Session} (acyclic : (begin site sheet entries).site.Acyclic)
    (leads : (begin site sheet entries).Leads after) :
    Tour.Faithful (begin site sheet entries).site acyclic after.assembly := by
  let faithful (tour : Tour) : Prop :=
    Tour.Faithful (begin site sheet entries).site acyclic tour.assembly
  have start : faithful ⟨[], (begin site sheet entries).assembly⟩ := fun name found done =>
    absurd ⟨found, done⟩ (not_isDone_begin site sheet entries name)
  have reached : faithful ⟨[], after.assembly⟩ :=
    leads.invariant_charted start fun _ _ _ step valid charted held =>
      step.faithful valid charted held
  exact reached

/-- A request for the list of a name with one rule yields its listing after every run of questions,
if no list lies on a circle. -/
theorem fileList_eq_listing (site : Site) (sheet : Sheet) (entries : List JournalEntry)
    (acyclic : (begin site sheet entries).site.Acyclic) (name : String)
    (unique : ((begin site sheet entries).site.only? name).isSome) (queries : List Query) :
    (((begin site sheet entries).askAll queries).fileList name).1 =
      some ((begin site sheet entries).site.listing acyclic name) := by
  have leads := leads_askAll (ready_begin site sheet entries) queries
  have ready := leads.ready (ready_begin site sheet entries)
  have further := leads.trans (leads_fileList ready name)
  have faithful := further.faithful acyclic
  rw [← leads.alike.only?_eq] at unique
  obtain ⟨found, done⟩ := (Site.isDone_resolve_iff ready.valid).mpr unique
  have answer : (((begin site sheet entries).askAll queries).fileList name).1 = some found := by
    have held : (((begin site sheet entries).askAll queries).fileList
        name).2.assembly.slots.progress? name = some (.done found) := done
    rw [fst_fileList, Slots.entries?, held]
    rfl
  rw [answer, faithful name found done]

/-- A list of all texts, and a list that includes it. -/
def layered : Sheet where
  rules :=
    [{ name := "files", parameter := some "texts",
       properties := [⟨"include", ["*.txt"], {}⟩] },
     { name := "files", parameter := some "all",
       properties := [⟨"include", ["texts", "*.md"], {}⟩] }]

/-- A place with two files. -/
def twoFiles : Site where
  scope := { sheet := {} }
  storage := .inMemory { files := [(⟨"/work/a.md"⟩, ""), (⟨"/work/b.txt"⟩, "")] }

private theorem refers_layered {name other : String}
    (edge : (begin twoFiles layered []).site.Refers name other) :
    name = "all" ∧ other = "texts" := by
  obtain ⟨rule, own, rfl, raw, token, rfl⟩ := edge.exists_rule
  have unique := Site.isSome_only?_iff.mp edge.unique
  rcases List.mem_pair.mp own with rfl | rfl
  · have pattern : raw = "*.txt" := by simpa [Rule.view, Rule.property?] using token
    rw [pattern, Site.value_expand (by decide)] at unique
    exact absurd unique (by decide)
  · have tokens : raw = "texts" ∨ raw = "*.md" := by
      simpa [Rule.view, Rule.property?] using token
    rcases tokens with list | pattern
    · refine ⟨rfl, ?_⟩
      rw [list, Site.value_expand (by decide)]
    · rw [pattern, Site.value_expand (by decide)] at unique
      exact absurd unique (by decide)

private theorem acyclic_layered : (begin twoFiles layered []).site.Acyclic := by
  intro name circle
  obtain ⟨next, edge, -⟩ := Relation.TransGen.head'_iff.mp circle
  obtain ⟨last, -, back⟩ := Relation.TransGen.tail'_iff.mp circle
  have same := (refers_layered edge).1.symm.trans (refers_layered back).2
  exact absurd same (by decide)

theorem fileList_layered :
    (((begin twoFiles layered []).askAll [.resolveAll, .fileList "texts"]).fileList "all").1 =
      some ((begin twoFiles layered []).site.listing acyclic_layered "all") := by
  have unique : ((begin twoFiles layered []).site.only? "all").isSome := by
    rw [Site.isSome_only?_iff]
    decide
  exact fileList_eq_listing twoFiles layered [] acyclic_layered "all" unique _

end PackageSheet.Session
