import PackageSheet.Proofs.FileList.Framing
import PackageSheet.Proofs.Session.Views

/-!
Views are invisible to everything else. Two sessions agree when only the rules that they synthesized, the
views that they keep and the notes of their journals can differ (`Agree`). A question for views leads to
a session that agrees with the one before, and every other operation leads from sessions that agree to
such sessions again (`Agree.perform`). So two histories that differ in questions for views alone get the
same answers and reports (`answers_of_views`).
-/

namespace PackageSheet.Session

/-- An operation that asks for views alone: for the package, for a role, or for all roles. -/
def Operation.isView : Operation → Bool
  | .query .package | .query (.role _ _) | .query .roles => true
  | _ => false

/-- Two sessions answer a question with the same value, and with the same reports behind those from
before. -/
def AnswerAlike {α : Type} (one other : Session) (question : Session → α × Session) : Prop :=
  (question other).1 = (question one).1 ∧
    ∃ reports, (question one).2.diagnostics = one.diagnostics ++ reports ∧
      (question other).2.diagnostics = other.diagnostics ++ reports

/-- Two sessions on a sheet differ in the rules that they synthesized, in the views that they keep and
in notes alone. -/
structure Agree (sheet : Sheet) (one other : Session) : Prop where
  left : one.Sound sheet
  right : other.Sound sheet
  base : other.site.withSheet sheet = one.site.withSheet sheet
  assembly : one.assembly.Agrees other.assembly

variable {sheet : Sheet} {session one other last : Session}

private theorem Agree.refl (sound : session.Sound sheet) : Agree sheet session session :=
  ⟨sound, sound, rfl, .refl _⟩

theorem Agree.symm (agree : Agree sheet one other) : Agree sheet other one :=
  ⟨agree.right, agree.left, agree.base.symm, agree.assembly.symm⟩

theorem Agree.trans (early : Agree sheet one other) (late : Agree sheet other last) :
    Agree sheet one last :=
  ⟨early.left, late.right, late.base.trans early.base, early.assembly.trans late.assembly⟩

/-! ### Questions for views -/

private theorem agrees_noteSynthesis (session : Session) (synthesized : Bool) :
    session.assembly.Agrees (session.noteSynthesis synthesized).assembly := by
  unfold noteSynthesis
  split
  · exact session.assembly.agrees_note _
  · exact .refl _

theorem agrees_ask {query : Query} (view : (Operation.query query).isView = true) :
    session.assembly.Agrees (session.ask query).assembly := by
  cases query with
  | package =>
    let found := session.packages.consult session.sheet ""
    exact agrees_noteSynthesis { session.withSheet found.sheet with packages := found.catalog } _
  | role kind name =>
    let found := (session.roles kind).consult session.sheet name
    exact agrees_noteSynthesis ((session.withSheet found.sheet).withRoles kind found.catalog) _
  | roles =>
    rw [ask, allRoles, assembly_rolesOf]
    exact .refl _
  | _ => cases view

/-- After a question for views a session agrees with what it was before. -/
theorem Sound.agree_ask (sound : session.Sound sheet) {query : Query}
    (view : (Operation.query query).isView = true) : Agree sheet session (session.ask query) where
  left := sound
  right := sound.performAll [.query query]
  base := by
    rw [(leads_ask sound.ready query).site]
    rfl
  assembly := agrees_ask view

private theorem Agree.ask (agree : Agree sheet one other) (query : Query)
    (view : (Operation.query query).isView = true) : Agree sheet (one.ask query) (other.ask query) :=
  (agree.left.agree_ask view).symm.trans (agree.trans (agree.right.agree_ask view))

/-! ### What does not depend on views -/

/-- A session's sheet has grown from the one that it began with, which its site could still have. -/
theorem Sound.grown_base (sound : session.Sound sheet) :
    (session.site.withSheet sheet).scope.sheet.Grows Site.listRule session.sheet :=
  sound.grown

/-- A session asks for every file list what it asked for on the sheet that it began with. -/
theorem Sound.alike (sound : session.Sound sheet) :
    Site.Alike (session.site.withSheet sheet) session.site :=
  Site.alike_of_grows sound.grown_base

private theorem Sound.expand_eq (sound : session.Sound sheet) :
    session.site.expand = (session.site.withSheet sheet).expand :=
  Site.expand_of_grows sound.grown_base

private theorem Sound.resolve?_eq (sound : session.Sound sheet) :
    session.site.scope.resolve? = (session.site.withSheet sheet).scope.resolve? :=
  Scope.resolve?_eq sound.grown_base

/-- Work on the assembly that does not read the journal keeps sessions in agreement. -/
theorem Agree.of_framed (agree : Agree sheet one other) {α : Type} {work : Assembly → α × Assembly}
    (framed : Assembly.Framed work)
    (left : one.Leads { one with assembly := (work one.assembly).2 })
    (right : other.Leads { other with assembly := (work other.assembly).2 }) :
    AnswerAlike one other (fun session =>
        ((work session.assembly).1, { session with assembly := (work session.assembly).2 })) ∧
      Agree sheet { one with assembly := (work one.assembly).2 }
        { other with assembly := (work other.assembly).2 } := by
  obtain ⟨value, assembly, reports⟩ := agree.assembly.of_framed framed
  exact ⟨⟨value, reports⟩, agree.left.withAssembly left, agree.right.withAssembly right, agree.base,
    assembly⟩

theorem Agree.fileList (agree : Agree sheet one other) (name : String) :
    AnswerAlike one other (·.fileList name) ∧
      Agree sheet (one.fileList name).2 (other.fileList name).2 := by
  have alike : Site.Alike one.site other.site :=
    agree.left.alike.symm.trans (agree.base ▸ agree.right.alike)
  have left := leads_fileList agree.left.ready name
  have right := leads_fileList agree.right.ready name
  have answer : other.fileList name = ((one.site.resolve name other.assembly).1,
      { other with assembly := (one.site.resolve name other.assembly).2 }) := by
    rw [Session.fileList, alike.resolve_eq]
  unfold AnswerAlike
  dsimp only
  rw [answer] at right ⊢
  exact agree.of_framed (one.site.framed_resolve name) left right

theorem Agree.expand (agree : Agree sheet one other) (text : String) (location : Option Location) :
    AnswerAlike one other (·.expand text location) ∧
      Agree sheet (one.expand text location).2 (other.expand text location).2 := by
  have same : other.site.expand = one.site.expand := by
    rw [agree.left.expand_eq, agree.right.expand_eq, agree.base]
  have left := leads_expand one text location
  have right := leads_expand other text location
  let expanded := one.site.expand text location
  have framed : Assembly.Framed fun assembly => (expanded.value, assembly.reportAll expanded.reports) :=
    fun assembly entries => congrArg (expanded.value, ·) (Assembly.reportAll_behind _)
  have answer : other.expand text location = (expanded.value,
      { other with assembly := other.assembly.reportAll expanded.reports }) := by
    rw [Session.expand, same]
  unfold AnswerAlike
  dsimp only
  rw [answer] at right ⊢
  exact agree.of_framed framed left right

private theorem Agree.reference? (agree : Agree sheet one other) (body : String) :
    other.reference? body = one.reference? body := by
  unfold Session.reference?
  rw [agree.left.resolve?_eq, agree.right.resolve?_eq, agree.base]

private theorem Agree.set (agree : Agree sheet one other) (name value : String) :
    Agree sheet (one.set name value) (other.set name value) where
  left := agree.left.set name value
  right := agree.right.set name value
  base := congrArg (fun site : Site => { site with scope := site.scope.set name value }) agree.base
  assembly := agree.assembly

/-! ### Questions that ask for more -/

private theorem Agree.fileLists (agree : Agree sheet one other) (names : List String) :
    Agree sheet (one.fileLists names).2 (other.fileLists names).2 := by
  induction names generalizing one other with
  | nil => exact agree
  | cons name names ih => exact ih (agree.fileList name).2

private theorem Agree.gatherLists (agree : Agree sheet one other) (location : Location)
    (raws : List String) (entries : List Entry) :
    Agree sheet (gatherLists location raws entries one).2
      (gatherLists location raws entries other).2 := by
  induction raws generalizing one other entries with
  | nil => exact agree
  | cons raw raws ih =>
    obtain ⟨⟨named, -⟩, expanded⟩ := agree.expand raw (some location)
    let name := (one.expand raw (some location)).1
    obtain ⟨⟨found, -⟩, listed⟩ := expanded.fileList name
    dsimp only at named found
    rw [Session.gatherLists, Session.gatherLists]
    dsimp only
    rw [named, found]
    exact ih listed _

theorem Agree.roleFiles (agree : Agree sheet one other) (role : Role) :
    Agree sheet (one.roleFiles role).2 (other.roleFiles role).2 :=
  agree.gatherLists role.location role.fileLists []

def includesAny (role : Role) : Bool :=
  !role.fileLists.isEmpty

private theorem foldl_roleFiles_eq (session : Session) (roles : List Role) :
    roles.foldl (fun session role => (session.roleFiles role).2) session =
      (roles.filter includesAny).foldl (fun session role => (session.roleFiles role).2) session := by
  rw [List.foldl_filter]
  congr 1
  funext session role
  split
  · rfl
  · rename_i included
    have none : role.fileLists = [] := by simpa [includesAny] using included
    rw [Session.roleFiles, none]
    rfl

private theorem Agree.foldl_roleFiles (agree : Agree sheet one other) (roles : List Role) :
    Agree sheet (roles.foldl (fun session role => (session.roleFiles role).2) one)
      (roles.foldl (fun session role => (session.roleFiles role).2) other) := by
  induction roles generalizing one other with
  | nil => exact agree
  | cons role roles ih => exact ih (agree.roleFiles role)

/-- The role of a key by the first rule with it, if there is one and it includes something. -/
def included? (sheet : Sheet) (kind : RoleKind) (key : String) : Option Role :=
  ((sheet.first? kind.text key).map (Rule.asRole kind)).filter includesAny

private theorem included?_eq {kind : RoleKind} {extended : Sheet} {entry : String × Role}
    (grown : sheet.Grows Site.listRule extended)
    (current : Catalog.IsCurrent kind.text (Rule.asRole kind) extended entry) :
    included? sheet kind entry.1 = (some entry.2).filter includesAny := by
  obtain ⟨rule, found, own⟩ := Option.map_eq_some_iff.mp current
  unfold included?
  rcases grown.first?_cases found with old | ⟨missing, blank⟩
  · rw [old, ← own]
    rfl
  · have nothing : includesAny (rule.asRole kind) = false := by
      rw [includesAny, Rule.asRole, Cascade.view_of_blank blank]
      rfl
    rw [missing, ← own, Option.filter_some, nothing]
    rfl

/-- Of the views of all keys of a kind, those that include something are those of the keys from
before. -/
theorem filter_consultAll {kind : RoleKind} {catalog : Catalog Role} {extended : Sheet}
    (sound : Catalog.Sound kind.text (Rule.asRole kind) catalog extended)
    (grown : sheet.Grows Site.listRule extended) :
    ((catalog.consultAll extended (catalog.keys extended)).1.map (·.2)).filter includesAny =
      (sheet.parameters kind.text).filterMap (included? sheet kind) := by
  have keys : catalog.keys extended = extended.parameters kind.text := by
    rw [Catalog.keys, sound.named]
  rw [keys]
  have same := Catalog.sheet_consultAll_of_backed sound fun key member =>
    Sheet.isSome_first?_iff.mpr member
  have current := (sound.consultAll (extended.parameters kind.text)).current
  have names := catalog.keys_consultAll extended (extended.parameters kind.text)
  rw [same] at current
  generalize (catalog.consultAll extended (extended.parameters kind.text)).1 = found at current names ⊢
  have own (entry : String × Role) (member : entry ∈ found) :
      Option.guard includesAny entry.2 = included? sheet kind entry.1 := by
    rw [included?_eq grown (current entry member), Option.filter_some]
    rfl
  obtain ⟨more, split, new⟩ := Sheet.exists_parameters_of_prefix grown.isPrefix kind.text
  have silent (key : String) (member : key ∈ more) : included? sheet kind key = none := by
    have missing : ¬ (sheet.first? kind.text key).isSome :=
      Sheet.isSome_first?_iff.not.mpr (new key member)
    rw [Option.not_isSome_iff_eq_none] at missing
    rw [included?, missing]
    rfl
  calc (found.map (·.2)).filter includesAny
      = found.filterMap (fun entry => included? sheet kind entry.1) := by
        rw [← List.filterMap_eq_filter, List.filterMap_map]
        exact List.filterMap_congr own
    _ = (found.map (·.1)).filterMap (included? sheet kind) := by
        rw [List.filterMap_map]
        rfl
    _ = (sheet.parameters kind.text).filterMap (included? sheet kind) := by
        rw [names, split, List.filterMap_append, List.filterMap_eq_nil_iff.mpr silent,
          List.append_nil]

/-- The roles that include something are those of the sheet before it has grown. -/
theorem Sound.filter_rolesOf (sound : session.Sound sheet) (kinds : List RoleKind) :
    (session.rolesOf kinds).1.filter includesAny =
      kinds.flatMap fun kind => (sheet.parameters kind.text).filterMap (included? sheet kind) := by
  induction kinds generalizing session with
  | nil => rfl
  | cons kind kinds ih =>
    let catalog := session.roles kind
    let keys := catalog.keys session.sheet
    have grown := catalog.grows_consultAll (sound.ready.roles kind) session.sheet keys
    have served := (sound.roles kind).consultAll keys
    have later := ih (sound.withRoles grown served.toSound)
    rw [Session.rolesOf, List.flatMap_cons, ← later, ← filter_consultAll (sound.roles kind) sound.grown]
    exact List.filter_append _ _

private theorem Agree.resolveAll (agree : Agree sheet one other) :
    Agree sheet one.resolveAll other.resolveAll := by
  have packaged : Agree sheet one.package.2 other.package.2 := agree.ask .package rfl
  have names : other.package.2.listNames = one.package.2.listNames := by
    rw [listNames, listNames, packaged.assembly.slots]
  have listed := packaged.fileLists one.package.2.listNames
  have found := listed.ask .roles rfl
  unfold Session.resolveAll
  dsimp only
  rw [names, foldl_roleFiles_eq, foldl_roleFiles_eq (other.package.2.fileLists _).2.allRoles.2]
  unfold allRoles
  rw [listed.left.filter_rolesOf, listed.right.filter_rolesOf]
  exact found.foldl_roleFiles _

/-! ### Histories -/

/-- Every operation that is no question for views keeps sessions in agreement. -/
theorem Agree.perform (agree : Agree sheet one other) {operation : Operation}
    (plain : operation.isView = false) :
    Agree sheet (one.perform operation) (other.perform operation) := by
  cases operation with
  | set name value => exact agree.set name value
  | query query =>
    cases query with
    | fileList name => exact (agree.fileList name).2
    | roleFiles role => exact agree.roleFiles role
    | resolveAll => exact agree.resolveAll
    | expand text location => exact (agree.expand text location).2
    | reference body => exact agree
    | _ => cases plain

/-- After a history a session agrees with one that was not asked for views. -/
theorem Agree.performAll (agree : Agree sheet one other) (operations : List Operation) :
    Agree sheet (one.performAll operations) (other.performAll (operations.filter (!·.isView))) := by
  induction operations generalizing one other with
  | nil => exact agree
  | cons operation operations ih =>
    cases kind : operation.isView with
    | false =>
      rw [List.filter_cons_of_pos (by simp [kind])]
      exact ih (agree.perform kind)
    | true =>
      rw [List.filter_cons_of_neg (by simp [kind])]
      cases operation with
      | query query => exact ih ((agree.left.agree_ask kind).symm.trans agree)
      | set name value => cases kind

/-- Views are invisible to everything else. After two histories that differ in questions for views alone,
every request for a file list and every expansion yields the same value in both sessions and reports the
same, every reference stands for the same, and the same lists are declared and have come equally far. A
question for views itself reports nothing, and the rules that were loaded, as all others, keep their
places. -/
theorem answers_of_views (site : Site) (sheet : Sheet) (entries : List JournalEntry)
    (operations others : List Operation)
    (same : others.filter (!·.isView) = operations.filter (!·.isView)) :
    let one := (begin site sheet entries).performAll operations
    let other := (begin site sheet entries).performAll others
    (∀ name, AnswerAlike one other (·.fileList name)) ∧
    (∀ text location, AnswerAlike one other (·.expand text location)) ∧
    (∀ body, other.reference? body = one.reference? body) ∧
    (∀ name, other.progress? name = one.progress? name) ∧
    other.listNames = one.listNames ∧
    other.diagnostics = one.diagnostics ∧
    sheet.rules <+: one.sheet.rules ∧
    ∀ query, (Operation.query query).isView = true →
      (one.ask query).diagnostics = one.diagnostics ∧
        one.sheet.rules <+: (one.ask query).sheet.rules := by
  intro one other
  have start : Agree sheet (begin site sheet entries) (begin site sheet entries) :=
    .refl (sound_begin site sheet entries)
  have first := start.performAll operations
  have second := start.performAll others
  rw [same] at second
  have agree : Agree sheet one other := first.trans second.symm
  refine ⟨fun name => (agree.fileList name).1, fun text location => (agree.expand text location).1,
    agree.reference?, fun name => ?_, ?_, agree.assembly.diagnostics, agree.left.grown.isPrefix,
    fun query view => ⟨?_, ?_⟩⟩
  · rw [progress?, progress?, agree.assembly.slots]
  · rw [listNames, listNames, agree.assembly.slots]
  · exact (agrees_ask view).diagnostics
  · exact (leads_ask agree.left.ready query).grown.isPrefix

/-- Two lists that ask for each other are resolved alike whether or not there were questions for views,
which put two rules at the end of the sheet. -/
theorem answers_of_views_paired :
    let operations : List Operation := [.query .package, .query (.fileList "left"),
      .query (.role .driver "left"), .query .roles]
    let one := (begin emptyPlace paired []).performAll operations
    let other := (begin emptyPlace paired []).performAll [.query (.fileList "left")]
    (∀ name, AnswerAlike one other (·.fileList name)) ∧
      one.sheet.rules.length = 4 ∧ other.sheet.rules.length = 2 := by
  intro operations one other
  obtain ⟨listed, -⟩ := answers_of_views emptyPlace paired [] operations
    [.query (.fileList "left")] rfl
  exact ⟨listed, rfl, rfl⟩

end PackageSheet.Session
