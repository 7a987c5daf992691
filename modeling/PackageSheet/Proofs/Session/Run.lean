import PackageSheet.Proofs.FileList.Alike
import PackageSheet.Proofs.FileList.Outcome
import PackageSheet.Session

/-!
Sessions that are asked one question after another. Whatever is asked, the sheet only grows and the
work on file lists goes on by steps (`leads_ask`), so what every step keeps holds after every run of
questions (`Leads.invariant`).
-/

namespace PackageSheet

/-- What a session can be asked. -/
inductive Query where
  | fileList (name : String)
  | roleFiles (role : Role)
  | role (kind : RoleKind) (name : String)
  | roles
  | package
  | resolveAll
  | expand (text : String) (location : Option Location)
  | reference (body : String)

namespace Session

/-- The session after a question. -/
def ask (session : Session) : Query → Session
  | .fileList name => (session.fileList name).2
  | .roleFiles role => (session.roleFiles role).2
  | .role kind name => (session.role kind name).2
  | .roles => session.allRoles.2
  | .package => session.package.2
  | .resolveAll => session.resolveAll
  | .expand text location => (session.expand text location).2
  | .reference _ => session

def askAll (session : Session) (queries : List Query) : Session :=
  queries.foldl ask session

/-- The answer to a request for a file list are its entries afterwards. -/
theorem fst_fileList (session : Session) (name : String) :
    (session.fileList name).1 = (session.fileList name).2.assembly.slots.entries? name :=
  rfl

/-- Between questions a session is ready: no list is in progress, the slots agree with the sheet,
and the rules that are synthesized make no file lists. -/
structure Ready (session : Session) : Prop where
  packages : session.packages.ruleName ≠ Site.listRule
  roles : ∀ kind, (session.roles kind).ruleName ≠ Site.listRule
  valid : Tour.Valid session.site ⟨[], session.assembly⟩

/-- A session leads to another by growth of its sheet and work on its file lists. -/
structure Leads (before after : Session) : Prop where
  site : after.site = before.site.withSheet after.sheet
  grown : before.sheet.Grows Site.listRule after.sheet
  packages : after.packages.ruleName = before.packages.ruleName
  roles : ∀ kind, (after.roles kind).ruleName = (before.roles kind).ruleName
  runs : Tour.Runs before.site ⟨[], before.assembly⟩ ⟨[], after.assembly⟩

variable {before middle after session : Session}

theorem Leads.refl (session : Session) : session.Leads session :=
  ⟨rfl, .refl _, rfl, fun _ => rfl, .refl⟩

theorem Leads.alike (leads : before.Leads after) : Site.Alike before.site after.site := by
  rw [leads.site]
  exact Site.alike_of_grows leads.grown

theorem Leads.trans (early : before.Leads middle) (late : middle.Leads after) :
    before.Leads after where
  site := by
    rw [late.site, early.site]
    rfl
  grown := early.grown.trans late.grown
  packages := late.packages.trans early.packages
  roles kind := (late.roles kind).trans (early.roles kind)
  runs := early.runs.trans (late.runs.of_alike early.alike.symm)

theorem Leads.ready (leads : before.Leads after) (ready : before.Ready) : after.Ready where
  packages := leads.packages ▸ ready.packages
  roles kind := leads.roles kind ▸ ready.roles kind
  valid := (leads.runs.valid ready.valid).of_counts fun name => by rw [leads.alike.recipes]

/-- Only the journal got entries that report no fault of a list. -/
theorem Leads.of_write {entries : List JournalEntry} (plain : ∀ entry ∈ entries, entry.isPlain) :
    session.Leads { session with assembly := session.assembly.write entries } :=
  ⟨rfl, .refl _, rfl, fun _ => rfl, .single ⟨"", .write entries plain⟩⟩

theorem leads_expand (session : Session) (text : String) (location : Option Location) :
    session.Leads (session.expand text location).2 := by
  refine .of_write ?_
  intro entry member
  obtain ⟨d, reported, rfl⟩ := List.mem_map.mp member
  simp [JournalEntry.isPlain, session.site.arePlain_expand text location d reported]

theorem leads_fileList (ready : session.Ready) (name : String) :
    session.Leads (session.fileList name).2 :=
  ⟨rfl, .refl _, rfl, fun _ => rfl, (Tour.resolve_tour ready.valid name).1.runs⟩

theorem leads_noteSynthesis (session : Session) (synthesized : Bool) :
    session.Leads (session.noteSynthesis synthesized) := by
  unfold noteSynthesis
  split
  · exact .of_write fun entry member => by rw [List.mem_singleton.mp member]; rfl
  · exact .refl session

theorem leads_package (ready : session.Ready) : session.Leads session.package.2 := by
  let found := session.packages.consult session.sheet ""
  have grown := session.packages.grows_consult ready.packages session.sheet ""
  have consulted : session.Leads
      { session.withSheet found.sheet with packages := found.catalog } :=
    ⟨rfl, grown, session.packages.ruleName_consult _ _, fun _ => rfl, .refl⟩
  exact consulted.trans (leads_noteSynthesis _ found.synthesized)

theorem leads_withRoles {kind : RoleKind} {catalog : Catalog Role} {sheet : Sheet}
    (grown : session.sheet.Grows Site.listRule sheet)
    (same : catalog.ruleName = (session.roles kind).ruleName) :
    session.Leads ((session.withSheet sheet).withRoles kind catalog) := by
  refine ⟨rfl, grown, rfl, ?_, .refl⟩
  intro other
  by_cases chosen : other = kind
  · subst chosen
    simpa [withRoles] using same
  · simp [withRoles, withSheet, chosen]

private theorem leads_role (ready : session.Ready) (kind : RoleKind) (name : String) :
    session.Leads (session.role kind name).2 := by
  have grown := (session.roles kind).grows_consult (ready.roles kind) session.sheet name
  have same := (session.roles kind).ruleName_consult session.sheet name
  exact (leads_withRoles grown same).trans (leads_noteSynthesis _ _)

private theorem leads_rolesOf (ready : session.Ready) (kinds : List RoleKind) :
    session.Leads (session.rolesOf kinds).2 := by
  induction kinds generalizing session with
  | nil => exact .refl session
  | cons kind kinds ih =>
    let catalog := session.roles kind
    let keys := catalog.keys session.sheet
    have grown := catalog.grows_consultAll (ready.roles kind) session.sheet keys
    have same := catalog.ruleName_consultAll session.sheet keys
    have first := leads_withRoles grown same
    exact first.trans (ih (first.ready ready))

theorem leads_allRoles (ready : session.Ready) : session.Leads session.allRoles.2 :=
  leads_rolesOf ready RoleKind.all

theorem leads_fileLists (ready : session.Ready) (names : List String) :
    session.Leads (session.fileLists names).2 := by
  induction names generalizing session with
  | nil => exact .refl session
  | cons name names ih =>
    have first := leads_fileList ready name
    exact first.trans (ih (first.ready ready))

theorem leads_gatherLists (ready : session.Ready) (location : Location) (raws : List String)
    (entries : List Entry) : session.Leads (gatherLists location raws entries session).2 := by
  induction raws generalizing session entries with
  | nil => exact .refl session
  | cons raw raws ih =>
    have expanded := leads_expand session raw (some location)
    have listed := leads_fileList (expanded.ready ready) (session.expand raw (some location)).1
    have first := expanded.trans listed
    exact first.trans (ih (first.ready ready) _)

theorem leads_roleFiles (ready : session.Ready) (role : Role) :
    session.Leads (session.roleFiles role).2 :=
  leads_gatherLists ready role.location role.fileLists []

theorem leads_foldl_roleFiles (ready : session.Ready) (roles : List Role) :
    session.Leads (roles.foldl (fun session role => (session.roleFiles role).2) session) := by
  induction roles generalizing session with
  | nil => exact .refl session
  | cons role roles ih =>
    have first := leads_roleFiles ready role
    exact first.trans (ih (first.ready ready))

theorem leads_resolveAll (ready : session.Ready) : session.Leads session.resolveAll := by
  have packaged := leads_package ready
  have listed := packaged.trans (leads_fileLists (packaged.ready ready) session.package.2.listNames)
  have found := listed.trans (leads_allRoles (listed.ready ready))
  simp only [resolveAll]
  exact found.trans (leads_foldl_roleFiles (found.ready ready) _)

/-- Every question leads on. -/
theorem leads_ask (ready : session.Ready) (query : Query) : session.Leads (session.ask query) := by
  cases query with
  | fileList name => exact leads_fileList ready name
  | roleFiles role => exact leads_roleFiles ready role
  | role kind name => exact leads_role ready kind name
  | roles => exact leads_allRoles ready
  | package => exact leads_package ready
  | resolveAll => exact leads_resolveAll ready
  | expand text location => exact leads_expand session text location
  | reference => exact .refl session

theorem leads_askAll (ready : session.Ready) (queries : List Query) :
    session.Leads (session.askAll queries) := by
  induction queries generalizing session with
  | nil => exact .refl session
  | cons query queries ih =>
    have first := leads_ask ready query
    exact first.trans (ih (first.ready ready))

/-- A session that is loaded begins on the sheet that is loaded. -/
theorem exists_sheet_of_load {site : Site} {path : Path} (loaded : load site path = .ok session) :
    ∃ sheet entries, Sheet.load site.storage path = .ok (sheet, entries) ∧
      session = begin site sheet entries := by
  unfold load at loaded
  cases own : Sheet.load site.storage path with
  | error failure =>
    rw [own] at loaded
    cases loaded
  | ok found =>
    rw [own] at loaded
    cases loaded
    exact ⟨found.1, found.2, rfl, rfl⟩

theorem progress?_begin (site : Site) (sheet : Sheet) (entries : List JournalEntry)
    (name : String) : (begin site sheet entries).assembly.slots.progress? name =
      if name ∈ sheet.parameters Site.listRule then some .unvisited else none :=
  Slots.progress?_declare _ name

theorem unvisited_of_begin (site : Site) (sheet : Sheet) (entries : List JournalEntry)
    {name : String} {progress : Progress}
    (known : (begin site sheet entries).assembly.slots.progress? name = some progress) :
    progress = .unvisited := by
  rw [progress?_begin] at known
  split at known
  · exact (Option.some.inj known).symm
  · cases known

theorem not_isDone_begin (site : Site) (sheet : Sheet) (entries : List JournalEntry)
    (name : String) : ¬ (begin site sheet entries).assembly.IsDone name := by
  rintro ⟨found, known⟩
  cases unvisited_of_begin site sheet entries known

theorem ready_begin (site : Site) (sheet : Sheet) (entries : List JournalEntry) :
    (begin site sheet entries).Ready where
  packages := (by decide : "package" ≠ Site.listRule)
  roles kind := (by cases kind <;> decide : kind.text ≠ Site.listRule)
  valid := by
    constructor
    · intro name
      have rules : (begin site sheet entries).site.recipes name ≠ [] ↔
          sheet.selected Site.listRule (some name) ≠ [] := List.map_eq_nil_iff.not
      rw [rules, ← Sheet.mem_parameters, progress?_begin]
      split <;> simp_all
    · intro name
      refine ⟨?_, nofun⟩
      intro busy
      cases unvisited_of_begin site sheet entries busy
    · exact .nil
    · intro name progress known begun
      exact absurd (unvisited_of_begin site sheet entries known) begun
    · exact .nil

theorem charted_begin (site : Site) (sheet : Sheet) (entries : List JournalEntry) :
    Tour.Charted (begin site sheet entries).site ⟨[], (begin site sheet entries).assembly⟩ where
  sound _ accused := nomatch accused
  closed name _ done := absurd done (not_isDone_begin site sheet entries name)
  founded name done := absurd done (not_isDone_begin site sheet entries name)

/-- What every step keeps holds after every run of questions. -/
theorem Leads.invariant {holds : Tour → Prop} (leads : before.Leads after) (ready : before.Ready)
    (start : holds ⟨[], before.assembly⟩)
    (keeps : ∀ root first second, Tour.Step before.site root first second →
      Tour.Valid before.site first → holds first → holds second) : holds ⟨[], after.assembly⟩ :=
  leads.runs.invariant ready.valid start keeps

section Begun

variable {site : Site} {sheet : Sheet} {entries : List JournalEntry}

/-- What is known of circles holds after every run of questions. -/
theorem Leads.charted (leads : (begin site sheet entries).Leads after) :
    Tour.Charted (begin site sheet entries).site ⟨[], after.assembly⟩ :=
  leads.invariant (ready_begin site sheet entries) (charted_begin site sheet entries)
    fun _ _ _ step valid held => step.charted valid held

theorem Leads.invariant_charted {holds : Tour → Prop}
    (leads : (begin site sheet entries).Leads after)
    (start : holds ⟨[], (begin site sheet entries).assembly⟩)
    (keeps : ∀ root first second, Tour.Step (begin site sheet entries).site root first second →
      Tour.Valid (begin site sheet entries).site first →
        Tour.Charted (begin site sheet entries).site first → holds first → holds second) :
    holds ⟨[], after.assembly⟩ := by
  let known (tour : Tour) : Prop :=
    Tour.Charted (begin site sheet entries).site tour ∧ holds tour
  have first : known ⟨[], (begin site sheet entries).assembly⟩ :=
    ⟨charted_begin site sheet entries, start⟩
  have reached : known ⟨[], after.assembly⟩ :=
    leads.invariant (ready_begin site sheet entries) first fun root _ _ step valid held =>
      ⟨step.charted valid held.1, keeps root _ _ step valid held.1 held.2⟩
  exact reached.2

end Begun

end Session

end PackageSheet
