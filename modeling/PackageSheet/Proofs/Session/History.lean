import PackageSheet.Proofs.Session.Circles

/-!
Sessions with a history of questions and of changes to the table. The slots of the file lists keep
to their rules through every history (`slots_of_history`): nothing stays in progress, what is done
never changes, a request yields entries exactly for a list with one rule, and each fault is reported
at most once.
-/

namespace PackageSheet.Session

/-- What can be done with a session: to ask it, or to put a value into its table. -/
inductive Operation where
  | query (query : Query)
  | set (name value : String)

def perform (session : Session) : Operation → Session
  | .query query => session.ask query
  | .set name value => session.set name value

def performAll (session : Session) (operations : List Operation) : Session :=
  operations.foldl perform session

def table (session : Session) : Bindings :=
  session.site.scope.table

/-- What every history keeps: the session is ready again, the sheet only grew, nothing was taken
back, and faults were reported as they became known. -/
structure Keeps (before after : Session) : Prop where
  ready : after.Ready
  grown : before.sheet.Grows Site.listRule after.sheet
  kept : before.assembly.Extends after.assembly
  balanced : ∀ since, before.assembly.Balanced since → after.assembly.Balanced since

variable {before middle after session : Session}

private theorem Keeps.trans (early : before.Keeps middle) (late : middle.Keeps after) :
    before.Keeps after where
  ready := late.ready
  grown := early.grown.trans late.grown
  kept := early.kept.trans late.kept
  balanced since held := late.balanced since (early.balanced since held)

private theorem Leads.keeps (leads : before.Leads after) (ready : before.Ready) :
    before.Keeps after where
  ready := leads.ready ready
  grown := leads.grown
  kept := leads.runs.extends ready.valid
  balanced _ held := leads.balanced ready held

/-- A value in the table changes what tokens expand to, but not how many rules a list has. -/
theorem keeps_set (ready : session.Ready) (name value : String) :
    session.Keeps (session.set name value) := by
  refine ⟨⟨ready.packages, ready.roles, ?_⟩, .refl _, .refl _, fun _ => id⟩
  apply ready.valid.of_counts
  intro list
  have rules : ((session.set name value).site.recipes list).length =
      (session.sheet.selected Site.listRule (some list)).length := List.length_map _
  exact rules.trans (List.length_map _).symm

theorem keeps_performAll (ready : session.Ready) (operations : List Operation) :
    session.Keeps (session.performAll operations) := by
  induction operations generalizing session with
  | nil => exact (Leads.refl session).keeps ready
  | cons operation operations ih =>
    have first : session.Keeps (session.perform operation) := by
      cases operation with
      | query query => exact (leads_ask ready query).keeps ready
      | set name value => exact keeps_set ready name value
    exact first.trans (ih first.ready)

private theorem table_of_queries (ready : session.Ready) (queries : List Query) :
    (session.performAll (queries.map .query)).table = session.table := by
  have asked : session.performAll (queries.map .query) = session.askAll queries :=
    List.foldl_map
  rw [asked, table, (leads_askAll ready queries).site]
  rfl

private theorem set_eq_self {name value : String}
    (same : (session.set name value).table = session.table) : session.set name value = session := by
  obtain ⟨⟨⟨sheet, held, environment, evaluator⟩, storage⟩, assembly, packages, roles⟩ := session
  have bound : Bindings.set (Text.lowercase name) value held = held := same
  simp [set, Scope.set, bound]

private theorem exists_queries (operations : List Operation)
    (unchanged : ∀ count, (session.performAll (operations.take count)).table = session.table) :
    ∃ queries, session.performAll operations = session.askAll queries := by
  induction operations generalizing session with
  | nil => exact ⟨[], rfl⟩
  | cons operation operations ih =>
    have once : (session.perform operation).table = session.table := unchanged 1
    have later (count : Nat) :
        ((session.perform operation).performAll (operations.take count)).table =
          (session.perform operation).table := (unchanged (count + 1)).trans once.symm
    obtain ⟨queries, same⟩ := ih later
    cases operation with
    | query query => exact ⟨query :: queries, same⟩
    | set name value =>
      have idle : session.perform (.set name value) = session := set_eq_self once
      refine ⟨queries, ?_⟩
      rw [idle] at same
      exact (congrArg (performAll · operations) idle).trans same

/-- A request yields entries exactly for a list with one rule. -/
theorem isSome_fileList_iff (ready : session.Ready) (name : String) :
    (session.fileList name).1.isSome ↔
      (session.sheet.selected Site.listRule (some name)).length = 1 := by
  have rules : (session.site.recipes name).length =
      (session.sheet.selected Site.listRule (some name)).length := List.length_map _
  rw [← rules, ← Site.isSome_only?_iff]
  exact Site.isSome_resolve_iff ready.valid

theorem progress?_of_fileList {name : String} {found : List Entry}
    (answer : (session.fileList name).1 = some found) :
    (session.fileList name).2.progress? name = some (.done found) := by
  rw [fst_fileList] at answer
  obtain ⟨progress, known, held⟩ := Option.bind_eq_some_iff.mp answer
  cases progress with
  | unvisited | inProgress => cases held
  | done entries =>
    cases held
    exact known

theorem fileList_again (ready : session.Ready) (name : String) :
    (session.fileList name).2.fileList name = session.fileList name := by
  have same : session.site.resolve name (session.site.resolve name session.assembly).2 =
      session.site.resolve name session.assembly := Site.resolve_again ready.valid
  simp only [fileList, same]

/-- While the table stays, a request leaves every list that its own reaches done. -/
theorem isDone_fileList_of_reaches {site : Site} {sheet : Sheet} {entries : List JournalEntry}
    (leads : (begin site sheet entries).Leads after) {name other : String}
    (reached : (begin site sheet entries).site.Reaches name other)
    (unique : ((begin site sheet entries).site.only? other).isSome) :
    (after.fileList name).2.assembly.IsDone other := by
  have ready := ready_begin site sheet entries
  have further := leads.trans (leads_fileList (leads.ready ready) name)
  have source := Site.Reaches.unique reached unique
  rw [← leads.alike.only?_eq] at source
  have done : (after.fileList name).2.assembly.IsDone name :=
    (Site.isDone_resolve_iff (leads.ready ready).valid).mpr source
  exact further.charted.isDone_of_reaches (further.runs.valid ready.valid) done reached

/-- While the table stays, a request changes no list that its own does not reach. -/
theorem progress?_fileList_of_not_reaches (leads : before.Leads after) (ready : after.Ready)
    {name other : String} (apart : ¬ before.site.Reaches name other) :
    (after.fileList name).2.progress? other = after.progress? other := by
  have steps := (Tour.resolve_tour ready.valid name).1
  refine (steps.confined ready.valid).kept other ?_
  unfold Site.Reaches at apart ⊢
  rwa [leads.alike.refers_eq]

/-- The slots of the file lists through every history: between operations none is in progress,
their different names are those that the sheet declares, one that was not visited has no entries,
and one that is done keeps its entries. A request yields entries exactly for a list with one rule,
which it leaves done, and the same request at once again yields the same and changes nothing. Each
fault of a list is reported at most once. While the table is unchanged, a request leaves every list
that its own reaches done, and every one that it does not reach as it was. -/
theorem slots_of_history (site : Site) (sheet : Sheet) (entries : List JournalEntry)
    (operations : List Operation) :
    let session := begin site sheet entries
    let after := session.performAll operations
    (∀ name, after.progress? name ≠ some .inProgress) ∧
    (after.listNames = sheet.parameters Site.listRule ∧ after.listNames.Nodup) ∧
    (∀ name, after.progress? name = some .unvisited →
      after.assembly.slots.entries? name = none) ∧
    (∀ more name found, after.progress? name = some (.done found) →
      (after.performAll more).progress? name = some (.done found)) ∧
    (∀ name, (after.fileList name).1.isSome ↔
      (sheet.selected Site.listRule (some name)).length = 1) ∧
    (∀ name found, (after.fileList name).1 = some found →
      (after.fileList name).2.progress? name = some (.done found)) ∧
    (∀ name, (after.fileList name).2.fileList name = after.fileList name) ∧
    (∃ reports, after.diagnostics = session.diagnostics ++ reports ∧
      (∀ d ∈ reports, d.code.isListFault → ∃ fault : ListFault, fault.Reports d) ∧
      ∀ fault, ListFault.countOf (· = fault) reports ≤ 1) ∧
    ((∀ count, (session.performAll (operations.take count)).table = session.table) →
      ∀ name,
        (∀ other, session.site.Reaches name other → (session.site.only? other).isSome →
          ∃ found, (after.fileList name).2.progress? other = some (.done found)) ∧
        ∀ other, ¬ session.site.Reaches name other →
          (after.fileList name).2.progress? other = after.progress? other) := by
  intro session after
  have ready : session.Ready := ready_begin site sheet entries
  have keeps : session.Keeps after := keeps_performAll ready operations
  have there := keeps.ready
  have names : after.listNames = sheet.parameters Site.listRule := by
    have declared : session.listNames = sheet.parameters Site.listRule := by
      simp [session, listNames, begin, Slots.declare, Function.comp_def]
    exact keeps.kept.names.trans declared
  refine ⟨?_, ⟨names, ?_⟩, ?_, ?_, ?_, ?_, fileList_again there, ?_, ?_⟩
  · intro name busy
    cases (there.valid.busy name).mp busy
  · rw [names]
    exact Sheet.nodup_distinct _ _
  · intro name new
    have known : after.assembly.slots.progress? name = some .unvisited := new
    rw [Slots.entries?, known]
    rfl
  · intro more name found done
    exact (keeps_performAll there more).kept.done name found done
  · intro name
    rw [isSome_fileList_iff there, keeps.grown.selected]
    rfl
  · intro name found answer
    exact progress?_of_fileList answer
  · have balanced := keeps.balanced session.diagnostics (.of_reported_nil rfl)
    obtain ⟨reports, split, known, counted⟩ := balanced.exists_fresh
    refine ⟨reports, split, ?_, ?_⟩
    · intro d member faulty
      obtain ⟨fault, -, report⟩ := known d member faulty
      exact ⟨fault, report⟩
    · intro fault
      rw [counted]
      apply ListFault.countP_le_one balanced.nodup
      rintro first - second - rfl rfl
      rfl
  · intro unchanged name
    obtain ⟨queries, same⟩ := exists_queries operations unchanged
    have leads : session.Leads after := by
      have asked := leads_askAll ready queries
      rwa [← same] at asked
    constructor
    · intro other reached unique
      exact isDone_fileList_of_reaches leads reached unique
    · intro other apart
      exact progress?_fileList_of_not_reaches leads there apart

theorem slots_of_history_paired : ∃ found,
    (((begin emptyPlace paired []).performAll
      ([.package, .fileList "right"].map .query)).fileList "left").2.progress? "right" =
        some (.done found) := by
  have unchanged (count : Nat) : ((begin emptyPlace paired []).performAll
      (([Query.package, .fileList "right"].map .query).take count)).table =
        (begin emptyPlace paired []).table := by
    rw [← List.map_take]
    exact table_of_queries (ready_begin emptyPlace paired []) _
  have edge := refers_paired.mpr (.inl ⟨rfl, rfl⟩)
  obtain ⟨-, -, -, -, -, -, -, -, reachable⟩ := slots_of_history emptyPlace paired []
    ([.package, .fileList "right"].map .query)
  exact (reachable unchanged "left").1 "right" (.single edge) edge.unique

end PackageSheet.Session
