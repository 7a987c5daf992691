import PackageSheet.Proofs.Session.Agreement
import PackageSheet.Proofs.Template.Warning

/-!
What is settled once everything was resolved. The package has a rule, every declared list rests, and so
does every list that a role includes: a request for it changes nothing (`atRest_resolveAll`). Nothing that
resolving asked for changes such a session, and all that is ever reported again are the warnings for the
references in the names that a role includes (`AtRest.ask`, `settled_of_resolveAll`).
-/

namespace PackageSheet.Session

/-- A request for the file list of a name changes nothing. -/
def Rests (session : Session) (name : String) : Prop :=
  (session.fileList name).2 = session

/-- What a role includes by a text, at its place, was asked for: the list rests, and the warnings for the
references of the text were reported. -/
structure Answered (session : Session) (location : Location) (raw : String) : Prop where
  rests : session.Rests (session.site.expand raw (some location)).value
  said : (session.site.expand raw (some location)).reports ⊆ session.diagnostics

/-- The warnings for the references in the names that a role includes. -/
def remarks (session : Session) (role : Role) : List Diagnostic :=
  role.fileLists.flatMap fun raw => (session.site.expand raw (some role.location)).reports

/-- The questions that resolving everything asks, or that it consists of. -/
def Resolves (session : Session) : Query → Prop
  | .resolveAll | .package | .roles => True
  | .fileList name => name ∈ session.listNames
  | .roleFiles role => role ∈ session.allRoles.1
  | _ => False

/-- What such a question reports each time that it is asked. -/
def echo (session : Session) : Query → List Diagnostic
  | .resolveAll => session.allRoles.1.flatMap session.remarks
  | .roleFiles role => session.remarks role
  | _ => []

variable {sheet : Sheet} {before middle after session : Session} {name : String}
  {location : Location}

/-! ### What a session is to stay as -/

/-- Two sessions differ in the views that they keep, and in some reports at the end of the journal. -/
structure Echoes (before : Session) (reports : List Diagnostic) (after : Session) : Prop where
  site : after.site = before.site
  assembly : after.assembly = before.assembly.reportAll reports

theorem Echoes.refl (session : Session) : session.Echoes [] session :=
  ⟨rfl, by simp [Assembly.reportAll, Journal.reportAll]⟩

theorem Echoes.trans {first second : List Diagnostic} (early : before.Echoes first middle)
    (late : middle.Echoes second after) : before.Echoes (first ++ second) after := by
  refine ⟨late.site.trans early.site, ?_⟩
  rw [late.assembly, early.assembly]
  simp [Assembly.reportAll, Journal.reportAll]

theorem Echoes.sheet_eq {reports : List Diagnostic} (echoes : before.Echoes reports after) :
    after.sheet = before.sheet := by
  rw [Session.sheet, echoes.site, Session.sheet]

theorem Echoes.diagnostics {reports : List Diagnostic} (echoes : before.Echoes reports after) :
    after.diagnostics = before.diagnostics ++ reports := by
  rw [Session.diagnostics, echoes.assembly]
  exact Journal.diagnostics_reportAll _ _

theorem Echoes.remarks_eq {reports : List Diagnostic} (echoes : before.Echoes reports after) :
    after.remarks = before.remarks := by
  funext role
  rw [remarks, echoes.site, remarks]

theorem Echoes.slots {reports : List Diagnostic} (echoes : before.Echoes reports after) :
    after.assembly.slots = before.assembly.slots := by
  rw [echoes.assembly, Assembly.slots_reportAll]

theorem rests_iff : session.Rests name ↔
    (session.site.resolve name session.assembly).2 = session.assembly :=
  ⟨congrArg Session.assembly, congrArg fun assembly => { session with assembly }⟩

theorem rests_fileList (ready : session.Ready) (name : String) :
    (session.fileList name).2.Rests name :=
  congrArg Prod.snd (fileList_again ready name)

theorem Rests.of_leads (rests : before.Rests name) (ready : before.Ready)
    (leads : before.Leads after) : after.Rests name := by
  rw [rests_iff] at rests ⊢
  rw [leads.alike.resolve_eq]
  exact Site.resolve_of_extends ready.valid (leads.runs.valid ready.valid)
    (leads.runs.extends ready.valid) rests

theorem Rests.of_echoes {reports : List Diagnostic} (rests : before.Rests name)
    (ready : before.Ready) (echoes : before.Echoes reports after) : after.Rests name := by
  have same := echoes.slots
  rw [rests_iff] at rests ⊢
  rw [echoes.site]
  refine Site.resolve_of_extends ready.valid (ready.valid.of_slots same) ?_ rests
  rw [echoes.assembly]
  exact .of_slots rfl fun _ known => known

theorem Leads.prefix_diagnostics (leads : before.Leads after) (ready : before.Ready) :
    before.diagnostics <+: after.diagnostics := by
  let holds (tour : Tour) : Prop := before.diagnostics <+: tour.assembly.journal.diagnostics
  have start : holds ⟨[], before.assembly⟩ := List.prefix_refl _
  refine leads.invariant ready start ?_
  intro root first second step valid held
  cases step with
  | write entries =>
    refine held.trans ?_
    simp [Assembly.write, Journal.diagnostics]
  | undefined | ambiguous | circular =>
    refine held.trans ?_
    rw [Assembly.complain, Journal.diagnostics_reportOnce]
    exact List.prefix_append _ _
  | enter | leave => exact held

theorem Answered.of_leads {raw : String} (answered : before.Answered location raw)
    (ready : before.Ready) (leads : before.Leads after) : after.Answered location raw := by
  have same : after.site.expand = before.site.expand := by
    rw [leads.site]
    exact Site.expand_of_grows leads.grown
  refine ⟨?_, ?_⟩
  · rw [same]
    exact answered.rests.of_leads ready leads
  · rw [same]
    exact List.Subset.trans answered.said (leads.prefix_diagnostics ready).subset

/-! ### Views of a sheet that has them -/

/-- The roles of some kinds are those of the first rules, and the sheet stays as it is. -/
theorem Sound.rolesOf_eq (sound : session.Sound sheet) (kinds : List RoleKind) :
    (session.rolesOf kinds).1 = (kinds.flatMap fun kind =>
        (session.sheet.parameters kind.text).filterMap fun key =>
          (session.sheet.first? kind.text key).map (Rule.asRole kind)) ∧
      (session.rolesOf kinds).2.site = session.site := by
  induction kinds generalizing session with
  | nil => exact ⟨rfl, rfl⟩
  | cons kind kinds ih =>
    let catalog := session.roles kind
    let keys := catalog.keys session.sheet
    have named : keys = session.sheet.parameters kind.text := by
      rw [← (sound.roles kind).named]
      rfl
    have backed (key : String) (member : key ∈ keys) :
        (session.sheet.first? kind.text key).isSome :=
      Sheet.isSome_first?_iff.mpr (named ▸ member)
    have there : session.withSheet (catalog.consultAll session.sheet keys).2.2 = session := by
      rw [Catalog.sheet_consultAll_of_backed (sound.roles kind) backed]
      rfl
    have grown := catalog.grows_consultAll (sound.ready.roles kind) session.sheet keys
    have served := (sound.roles kind).consultAll keys
    obtain ⟨others, last⟩ := ih (sound.withRoles grown served.toSound)
    rw [Session.rolesOf, List.flatMap_cons]
    dsimp only
    rw [others, last, Catalog.values_consultAll (sound.roles kind) backed, there, named]
    exact ⟨rfl, rfl⟩

theorem Sound.allRoles_of_sheet (sound : before.Sound sheet) (later : after.Sound sheet)
    (same : after.sheet = before.sheet) : after.allRoles.1 = before.allRoles.1 := by
  rw [allRoles, allRoles, (later.rolesOf_eq _).1, (sound.rolesOf_eq _).1, same]

theorem Sound.site_allRoles (sound : session.Sound sheet) :
    session.allRoles.2.site = session.site := by
  rw [allRoles]
  exact (sound.rolesOf_eq _).2

private theorem Sound.mem_allRoles_iff (sound : session.Sound sheet) {role : Role}
    (included : role.fileLists ≠ []) : role ∈ session.allRoles.1 ↔
      role ∈ RoleKind.all.flatMap fun kind =>
        (sheet.parameters kind.text).filterMap (included? sheet kind) := by
  have some : includesAny role = true := by simp [includesAny, included]
  rw [← sound.filter_rolesOf RoleKind.all, List.mem_filter, ← allRoles]
  exact (and_iff_left some).symm

private theorem Sound.isSome_first?_package (sound : session.Sound sheet) :
    (session.package.2.sheet.first? "package" "").isSome := by
  have current := (sound.packages.consult "").current _ List.mem_cons_self
  obtain ⟨rule, found, -⟩ := Option.map_eq_some_iff.mp current
  have same : session.package.2.sheet = (session.packages.consult session.sheet "").sheet := by
    rw [Session.package, noteSynthesis_eq]
    rfl
  rw [same, found]
  rfl

/-- Where there is one, nothing changes but the view that is kept. -/
theorem Sound.echoes_package (sound : session.Sound sheet)
    (ruled : (session.sheet.first? "package" "").isSome) : session.Echoes [] session.package.2 := by
  obtain ⟨value, -, consulted⟩ := Catalog.consult_eq sound.packages ""
  have there : session.packages.provide session.sheet "" = session.sheet := by
    rw [Catalog.provide, sound.packages.named, if_pos ruled]
  have known : (session.sheet.first? "package" "").isNone = false := by
    rw [Option.isNone_eq_false_iff, ruled]
  rw [Session.package, consulted, there, known]
  exact ⟨rfl, (Echoes.refl session).assembly⟩

/-! ### What resolving everything comes to -/

private theorem answered_gatherLists (ready : session.Ready) (location : Location) (raws : List String)
    (entries : List Entry) :
    ∀ raw ∈ raws, (gatherLists location raws entries session).2.Answered location raw := by
  induction raws generalizing session entries with
  | nil => nofun
  | cons raw raws ih =>
    let name := (session.expand raw (some location)).1
    let expanded := (session.expand raw (some location)).2
    have spoken := leads_expand session raw (some location)
    have there := spoken.ready ready
    have listed := leads_fileList there name
    have later := listed.ready there
    intro other member
    rcases List.mem_cons.mp member with rfl | member
    · have answered : (expanded.fileList name).2.Answered location other := by
        refine ⟨rests_fileList there name, ?_⟩
        have said : (session.site.expand other (some location)).reports ⊆ expanded.diagnostics := by
          rw [show expanded.diagnostics = _ from Journal.diagnostics_reportAll _ _]
          exact List.subset_append_right _ _
        exact List.Subset.trans said (listed.prefix_diagnostics there).subset
      exact answered.of_leads later (leads_gatherLists later location raws _)
    · exact ih later _ other member

private theorem answered_foldl_roleFiles (ready : session.Ready) (roles : List Role) :
    ∀ role ∈ roles, ∀ raw ∈ role.fileLists,
      (roles.foldl (fun session role => (session.roleFiles role).2) session).Answered
        role.location raw := by
  induction roles generalizing session with
  | nil => nofun
  | cons role roles ih =>
    have later := (leads_roleFiles ready role).ready ready
    intro other member raw included
    rcases List.mem_cons.mp member with rfl | member
    · have answered := answered_gatherLists ready other.location other.fileLists [] raw included
      exact answered.of_leads later (leads_foldl_roleFiles later roles)
    · exact ih later other member raw included

private theorem rests_fileLists (ready : session.Ready) (names : List String) :
    ∀ name ∈ names, (session.fileLists names).2.Rests name := by
  induction names generalizing session with
  | nil => nofun
  | cons name names ih =>
    have later := (leads_fileList ready name).ready ready
    intro other member
    rcases List.mem_cons.mp member with rfl | member
    · exact (rests_fileList ready other).of_leads later (leads_fileLists later names)
    · exact ih later other member

private theorem site_gatherLists (location : Location) (raws : List String) (entries : List Entry)
    (session : Session) : (gatherLists location raws entries session).2.site = session.site := by
  induction raws generalizing session entries with
  | nil => rfl
  | cons raw raws ih => exact ih _ _

private theorem site_foldl_roleFiles (roles : List Role) (session : Session) :
    (roles.foldl (fun session role => (session.roleFiles role).2) session).site =
      session.site := by
  induction roles generalizing session with
  | nil => rfl
  | cons role roles ih => exact (ih _).trans (site_gatherLists _ _ _ _)

private theorem site_fileLists (names : List String) (session : Session) :
    (session.fileLists names).2.site = session.site := by
  induction names generalizing session with
  | nil => rfl
  | cons name names ih => exact ih _

/-- Everything that resolving asks for was asked for before. -/
structure AtRest (sheet : Sheet) (session : Session) : Prop where
  sound : session.Sound sheet
  package : (session.sheet.first? "package" "").isSome
  lists : ∀ name ∈ session.listNames, session.Rests name
  roles : ∀ role ∈ session.allRoles.1, ∀ raw ∈ role.fileLists, session.Answered role.location raw

def listed (session : Session) : Session :=
  (session.package.2.fileLists session.package.2.listNames).2

theorem resolveAll_eq (session : Session) : session.resolveAll =
    session.listed.allRoles.1.foldl (fun session role => (session.roleFiles role).2)
      session.listed.allRoles.2 := by
  simp only [resolveAll, listed]

private theorem Sound.listed (sound : session.Sound sheet) : session.listed.Sound sheet := by
  have asked := sound.package.performAll
    ((session.package.2.listNames.map Query.fileList).map .query)
  rwa [performAll_queries, askAll_fileLists] at asked

theorem Sound.atRest_resolveAll (sound : session.Sound sheet) : AtRest sheet session.resolveAll := by
  have last : session.resolveAll.Sound sheet := sound.performAll [.query .resolveAll]
  rw [resolveAll_eq] at last ⊢
  have listing : session.package.2.Leads session.listed :=
    leads_fileLists sound.package.ready session.package.2.listNames
  have ready := sound.listed.ready
  have finding := leads_allRoles ready
  have gathering := leads_foldl_roleFiles (finding.ready ready) session.listed.allRoles.1
  have answered := answered_foldl_roleFiles (finding.ready ready) session.listed.allRoles.1
  have sheets := congrArg (·.scope.sheet)
    ((site_foldl_roleFiles session.listed.allRoles.1 _).trans sound.listed.site_allRoles)
  have same := sound.listed.allRoles_of_sheet last sheets
  have resolving := finding.trans gathering
  generalize session.listed.allRoles.1.foldl _ _ = resolved at *
  refine ⟨last, ?_, ?_, ?_⟩
  · have there : resolved.sheet = session.package.2.sheet :=
      sheets.trans (congrArg (·.scope.sheet) (site_fileLists _ _))
    rw [there]
    exact sound.isSome_first?_package
  · intro name member
    have names : resolved.listNames = session.package.2.listNames :=
      ((listing.trans resolving).runs.extends sound.package.ready.valid).names
    rw [names] at member
    exact (rests_fileLists sound.package.ready _ name member).of_leads ready resolving
  · rw [same]
    exact answered

/-! ### Asking again -/

theorem AtRest.of_echoes {reports : List Diagnostic} (rest : AtRest sheet before)
    (echoes : before.Echoes reports after) (sound : after.Sound sheet) : AtRest sheet after where
  sound := sound
  package := by
    rw [echoes.sheet_eq]
    exact rest.package
  lists name member := by
    rw [listNames, echoes.slots] at member
    exact (rest.lists name member).of_echoes rest.sound.ready echoes
  roles := by
    rw [rest.sound.allRoles_of_sheet sound echoes.sheet_eq]
    intro role member raw included
    obtain ⟨rests, said⟩ := rest.roles role member raw included
    refine ⟨?_, ?_⟩
    · rw [echoes.site]
      exact rests.of_echoes rest.sound.ready echoes
    · rw [echoes.site, echoes.diagnostics]
      exact List.Subset.trans said (List.subset_append_left _ _)

private theorem echoes_fileLists {names : List String} (rests : ∀ name ∈ names, session.Rests name) :
    (session.fileLists names).2 = session := by
  induction names with
  | nil => rfl
  | cons name names ih =>
    obtain ⟨own, others⟩ := List.forall_mem_cons.mp rests
    rw [fileLists]
    dsimp only
    rw [own]
    exact ih others

private theorem echoes_gatherLists (ready : session.Ready) {raws : List String}
    (rests : ∀ raw ∈ raws, session.Rests (session.site.expand raw (some location)).value)
    (entries : List Entry) :
    session.Echoes (raws.flatMap fun raw => (session.site.expand raw (some location)).reports)
      (gatherLists location raws entries session).2 := by
  induction raws generalizing session entries with
  | nil => exact .refl session
  | cons raw raws ih =>
    obtain ⟨own, others⟩ := List.forall_mem_cons.mp rests
    let expanded := (session.expand raw (some location)).2
    have spoken : session.Echoes (session.site.expand raw (some location)).reports expanded :=
      ⟨rfl, rfl⟩
    have there := (leads_expand session raw (some location)).ready ready
    have idle : (expanded.fileList (session.expand raw (some location)).1).2 = expanded :=
      own.of_echoes ready spoken
    rw [gatherLists, List.flatMap_cons]
    dsimp only
    rw [idle]
    exact spoken.trans (ih there (fun other member => (others other member).of_echoes ready spoken) _)

theorem AtRest.echoes_roleFiles (rest : AtRest sheet session) {role : Role}
    (member : role ∈ session.allRoles.1) :
    session.Echoes (session.remarks role) (session.roleFiles role).2 :=
  echoes_gatherLists rest.sound.ready
    (fun raw included => (rest.roles role member raw included).rests) []

private theorem AtRest.echoes_foldl_roleFiles (rest : AtRest sheet session) {roles : List Role}
    (known : ∀ role ∈ roles, role ∈ session.allRoles.1) :
    session.Echoes (roles.flatMap session.remarks)
      (roles.foldl (fun session role => (session.roleFiles role).2) session) := by
  induction roles generalizing session with
  | nil => exact .refl session
  | cons role roles ih =>
    obtain ⟨own, others⟩ := List.forall_mem_cons.mp known
    have first := rest.echoes_roleFiles own
    have sound : Sound sheet (session.roleFiles role).2 :=
      rest.sound.performAll [.query (.roleFiles role)]
    have same := rest.sound.allRoles_of_sheet sound first.sheet_eq
    have later := ih (rest.of_echoes first sound) (by rwa [same])
    rw [first.remarks_eq] at later
    exact first.trans later

theorem Sound.echoes_allRoles (sound : session.Sound sheet) :
    session.Echoes [] session.allRoles.2 := by
  refine ⟨sound.site_allRoles, ?_⟩
  rw [allRoles, assembly_rolesOf]
  exact (Echoes.refl session).assembly

theorem AtRest.echoes_resolveAll (rest : AtRest sheet session) :
    session.Echoes (session.allRoles.1.flatMap session.remarks) session.resolveAll := by
  have packaged := rest.sound.echoes_package rest.package
  have first := rest.of_echoes packaged rest.sound.package
  have listed : session.listed = session.package.2 := echoes_fileLists first.lists
  have found := packaged.trans first.sound.echoes_allRoles
  have sound : session.package.2.allRoles.2.Sound sheet := first.sound.rolesOf RoleKind.all
  have second := rest.of_echoes found sound
  have same := rest.sound.allRoles_of_sheet sound found.sheet_eq
  have early := rest.sound.allRoles_of_sheet first.sound packaged.sheet_eq
  rw [resolveAll_eq, listed, early]
  have known : ∀ role ∈ session.allRoles.1, role ∈ session.package.2.allRoles.2.allRoles.1 := by
    simp [same]
  have gathered := second.echoes_foldl_roleFiles known
  rw [found.remarks_eq] at gathered
  have whole := found.trans gathered
  rwa [List.nil_append, List.nil_append] at whole

/-- A question that was settled reports its echo and changes nothing else. -/
theorem AtRest.ask (rest : AtRest sheet session) {query : Query} (settled : session.Resolves query) :
    session.Echoes (session.echo query) (session.ask query) := by
  cases query with
  | package => exact rest.sound.echoes_package rest.package
  | roles => exact rest.sound.echoes_allRoles
  | fileList name =>
    have idle : session.ask (.fileList name) = session := rest.lists name settled
    rw [idle]
    exact .refl session
  | roleFiles role => exact rest.echoes_roleFiles settled
  | resolveAll => exact rest.echoes_resolveAll
  | role | expand | reference => cases settled

theorem AtRest.askAll (rest : AtRest sheet session) {queries : List Query}
    (settled : ∀ query ∈ queries, session.Resolves query) :
    session.Echoes (queries.flatMap session.echo) (session.askAll queries) := by
  induction queries generalizing session with
  | nil => exact .refl session
  | cons query queries ih =>
    obtain ⟨own, others⟩ := List.forall_mem_cons.mp settled
    have first := rest.ask own
    have sound : Sound sheet (session.ask query) := rest.sound.performAll [.query query]
    have roles := rest.sound.allRoles_of_sheet sound first.sheet_eq
    have resolves : (session.ask query).Resolves = session.Resolves := by
      funext other
      cases other with
      | fileList name => simp only [Resolves, listNames, first.slots]
      | roleFiles role => simp only [Resolves, roles]
      | _ => rfl
    have echo : (session.ask query).echo = session.echo := by
      funext other
      simp only [Session.echo, first.remarks_eq, roles]
    have later := ih (rest.of_echoes first sound) (by rwa [resolves])
    rw [echo] at later
    exact first.trans later

private theorem AtRest.said (rest : AtRest sheet session) {query : Query}
    (settled : session.Resolves query) :
    session.echo query ⊆ session.diagnostics := by
  have said {role : Role} (member : role ∈ session.allRoles.1) :
      session.remarks role ⊆ session.diagnostics := by
    intro d remarked
    obtain ⟨raw, included, reported⟩ := List.mem_flatMap.mp remarked
    exact (rest.roles role member raw included).said reported
  cases query with
  | resolveAll =>
    intro d echoed
    obtain ⟨role, member, remarked⟩ := List.mem_flatMap.mp echoed
    exact said member remarked
  | roleFiles role => exact said settled
  | _ => exact List.nil_subset _

/-- Where every text by which a role includes something is resolvable, nothing is. -/
theorem echo_eq_nil
    (resolvable : ∀ role ∈ session.allRoles.1, ∀ raw ∈ role.fileLists,
      session.site.scope.Resolvable raw.toList) {query : Query} (settled : session.Resolves query) :
    session.echo query = [] := by
  have silent {role : Role} (member : role ∈ session.allRoles.1) : session.remarks role = [] := by
    refine List.flatMap_eq_nil_iff.mpr fun raw included => ?_
    exact List.map_eq_nil_iff.mpr (resolvable role member raw included).problems_eq_nil
  cases query with
  | resolveAll => exact List.flatMap_eq_nil_iff.mpr fun role member => silent member
  | roleFiles role => exact silent settled
  | _ => rfl

/-- Resolving everything settles it. However often and in whatever order everything is resolved again, the
package, a declared list, all roles, or the files of one of these roles are asked for: the sheet, the state
and the entries of every list, and the roles stay as they are, and nothing is reported that was not
reported before. What is reported again, each time that the files of a role are resolved, are the
warnings for the references in the names of the lists that it includes; where these are resolvable,
nothing is. -/
theorem settled_of_resolveAll (site : Site) (sheet : Sheet) (entries : List JournalEntry)
    (operations : List Operation) (queries : List Query) :
    let settled := ((begin site sheet entries).performAll operations).resolveAll
    let after := settled.askAll queries
    (∀ query ∈ queries, settled.Resolves query) →
      (after.sheet = settled.sheet ∧ after.assembly.slots = settled.assembly.slots ∧
        after.allRoles.1 = settled.allRoles.1) ∧
      after.diagnostics = settled.diagnostics ++ queries.flatMap settled.echo ∧
      after.diagnostics ⊆ settled.diagnostics ∧
      ((∀ role ∈ settled.allRoles.1, ∀ raw ∈ role.fileLists,
          settled.site.scope.Resolvable raw.toList) →
        after.diagnostics = settled.diagnostics) := by
  intro settled after resolves
  have sound : Sound sheet ((begin site sheet entries).performAll operations) :=
    (sound_begin site sheet entries).performAll operations
  have rest : AtRest sheet settled := sound.atRest_resolveAll
  have echoes : settled.Echoes (queries.flatMap settled.echo) after := rest.askAll resolves
  have later : after.Sound sheet := by
    have asked := rest.sound.performAll (queries.map .query)
    rwa [performAll_queries] at asked
  refine ⟨⟨echoes.sheet_eq, echoes.slots, rest.sound.allRoles_of_sheet later echoes.sheet_eq⟩,
    echoes.diagnostics, ?_, fun resolvable => ?_⟩
  · rw [echoes.diagnostics]
    have said : queries.flatMap settled.echo ⊆ settled.diagnostics := by
      intro d echoed
      obtain ⟨query, asked, own⟩ := List.mem_flatMap.mp echoed
      exact rest.said (resolves query asked) own
    exact List.append_subset.mpr ⟨List.Subset.refl _, said⟩
  · have silent : queries.flatMap settled.echo = [] :=
      List.flatMap_eq_nil_iff.mpr fun query asked => echo_eq_nil resolvable (resolves query asked)
    rw [echoes.diagnostics, silent, List.append_nil]

/-- A sheet with two lists, and a role that includes one of them by what a reference stands for. -/
def staffed (included : String) : Sheet where
  rules := { name := "application", parameter := some "tool",
             properties := [⟨"include", [included], {}⟩] } :: paired.rules

def tool (included : String) : Role :=
  ⟨.application, "tool", [included], {}, false⟩

theorem mem_allRoles_staffed {included : String} (sound : session.Sound (staffed included)) {role : Role}
    (some : role.fileLists ≠ []) : role ∈ session.allRoles.1 ↔ role = tool included := by
  rw [sound.mem_allRoles_iff some]
  have roles : (RoleKind.all.flatMap fun kind =>
      ((staffed included).parameters kind.text).filterMap (included? (staffed included) kind)) =
        [tool included] := rfl
  rw [roles, List.mem_singleton]

/-- Where the reference has a value, nothing is said again. -/
theorem settled_of_resolveAll_staffed :
    let settled := ((begin emptyPlace (staffed "$\x7blist\x7d") []).performAll
      [.set "list" "left"]).resolveAll
    let queries : List Query := [.roleFiles (tool "$\x7blist\x7d"), .fileList "left", .resolveAll,
      .package, .roles, .resolveAll]
    (∀ query ∈ queries, settled.Resolves query) ∧
      (settled.askAll queries).diagnostics = settled.diagnostics := by
  intro settled queries
  let started := (begin emptyPlace (staffed "$\x7blist\x7d") []).set "list" "left"
  have sound : started.Sound (staffed "$\x7blist\x7d") := (sound_begin _ _ _).set "list" "left"
  have leads : started.Leads settled := leads_resolveAll sound.ready
  have rest := sound.atRest_resolveAll
  have roles (role : Role) (some : role.fileLists ≠ []) :
      role ∈ settled.allRoles.1 ↔ role = tool "$\x7blist\x7d" :=
    mem_allRoles_staffed rest.sound some
  have names : settled.listNames = ["left", "right"] :=
    (leads.runs.extends sound.ready.valid).names.trans rfl
  have resolves : ∀ query ∈ queries, settled.Resolves query := by
    have member : tool "$\x7blist\x7d" ∈ settled.allRoles.1 :=
      (roles _ (List.cons_ne_nil "$\x7blist\x7d" [])).mpr rfl
    simp [queries, Resolves, names, member]
  obtain ⟨-, -, -, silent⟩ := settled_of_resolveAll emptyPlace (staffed "$\x7blist\x7d") []
    [.set "list" "left"] queries resolves
  refine ⟨resolves, silent fun role member raw included => ?_⟩
  have own : role = tool "$\x7blist\x7d" := (roles role (List.ne_nil_of_mem included)).mp member
  subst own
  cases List.mem_singleton.mp included
  have found : settled.site.scope.resolve? "list".toList = some "left" := by
    have same : settled.site.scope.resolve? = started.site.scope.resolve? := by
      rw [leads.site]
      exact Scope.resolve?_eq leads.grown
    rw [same]
    decide
  exact Scope.resolvable_of_plain (by decide) found (by decide)

/-- Where it has none, that is said again. -/
theorem diagnostics_resolveAll_staffed :
    let settled := (begin emptyPlace (staffed "$\x7bnope\x7d") []).resolveAll
    settled.Resolves .resolveAll ∧ settled.resolveAll.diagnostics ≠ settled.diagnostics := by
  intro settled
  have sound := sound_begin emptyPlace (staffed "$\x7bnope\x7d") []
  have leads : (begin emptyPlace (staffed "$\x7bnope\x7d") []).Leads settled :=
    leads_resolveAll sound.ready
  have rest : AtRest _ settled := sound.atRest_resolveAll
  refine ⟨trivial, fun silent => ?_⟩
  have same : settled.site.scope.resolve? =
      (begin emptyPlace (staffed "$\x7bnope\x7d") []).site.scope.resolve? := by
    rw [leads.site]
    exact Scope.resolve?_eq leads.grown
  have missing : settled.site.scope.resolve? "nope".toList = none := by
    rw [same]
    decide
  have mention : Template.Mentions "$\x7bnope\x7d".toList "nope".toList :=
    @Template.Mentions.first [] "nope".toList [] (by decide) (by decide)
  have leads : settled.site.scope.Leads "$\x7bnope\x7d".toList "nope".toList := ⟨_, mention, .refl⟩
  have reported := Scope.unresolved_mem_problems_expand leads missing
  rw [rest.echoes_resolveAll.diagnostics, List.append_right_eq_self, List.flatMap_eq_nil_iff] at silent
  have member : tool "$\x7bnope\x7d" ∈ settled.allRoles.1 :=
    (mem_allRoles_staffed rest.sound (List.cons_ne_nil _ _)).mpr rfl
  have none := List.flatMap_eq_nil_iff.mp (silent _ member) _ List.mem_cons_self
  rw [List.map_eq_nil_iff.mp none] at reported
  exact List.not_mem_nil reported

end PackageSheet.Session
