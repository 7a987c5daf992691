import PackageSheet.Proofs.Catalog.Coherence
import PackageSheet.Proofs.Session.Singly

/-!
The typed views of a session. Whatever a history asks, the catalogs of the session stay sound
(`sound_performAll`), so a view of the package or of a role is always that of the first rule with its
selector. The cascade of all such rules may say more: it agrees with the view as far as the rules behind
the first one are silent (`views_of_history`).
-/

namespace PackageSheet

/-- The package of a rule. -/
def Rule.asPackage (rule : Rule) : Package where
  name := (rule.view "name").value?
  version := (rule.view "version").value?
  arch := (rule.view "arch").value?
  publisher := (rule.view "publisher").value?
  location := rule.location
  synthesized := rule.synthesized

/-- The role of a rule. -/
def Rule.asRole (kind : RoleKind) (rule : Rule) : Role where
  kind
  name := rule.key
  fileLists := (rule.view "include").values
  location := rule.location
  synthesized := rule.synthesized

private theorem Package.views_catalog : Package.catalog.Views Rule.asPackage := by
  intro sheet index rule here
  simp only [Package.catalog, Package.ofRule, here]
  rfl

private theorem Role.views_catalog (kind : RoleKind) : (Role.catalog kind).Views (Rule.asRole kind) := by
  intro sheet index rule here
  simp only [Role.catalog, Role.ofRule, here]
  rfl

/-- The fields of a package with the properties that they are read from. -/
def Package.fields (package : Package) : List (String × Option String) :=
  [("name", package.name), ("version", package.version), ("arch", package.arch),
    ("publisher", package.publisher)]

private theorem Rule.snd_of_mem_fields {rule : Rule} {field : String × Option String}
    (member : field ∈ rule.asPackage.fields) : field.2 = (rule.view field.1).value? := by
  simp only [Package.fields, List.mem_cons, List.not_mem_nil, or_false] at member
  rcases member with rfl | rfl | rfl | rfl <;> rfl

namespace Cascade

private theorem value?_view_of_tail (cascade : Cascade) (name : String) :
    (view cascade name).value? =
      ((view cascade.tail name).value?).or
        (cascade.head?.bind fun rule => (rule.view name).value?) := by
  cases cascade with
  | nil => rfl
  | cons rule rules =>
    rw [PropertyView.value?, values_view, List.flatMap_cons, List.getLast?_append, ← values_view]
    rfl

private theorem values_view_of_tail (cascade : Cascade) (name : String) :
    (view cascade name).values =
      ((cascade.head?.map fun rule : Rule => rule.view name).getD {}).values ++
        (view cascade.tail name).values := by
  cases cascade with
  | nil => rfl
  | cons rule rules =>
    rw [values_view, List.flatMap_cons, ← values_view]
    rfl

end Cascade

namespace Session

/-- A session on a sheet, whose catalogs are sound on the sheet as it has grown. -/
structure Sound (sheet : Sheet) (session : Session) : Prop where
  ready : session.Ready
  grown : sheet.Grows Site.listRule session.sheet
  packages : Catalog.Sound "package" Rule.asPackage session.packages session.sheet
  roles : ∀ kind : RoleKind,
    Catalog.Sound kind.text (Rule.asRole kind) (session.roles kind) session.sheet

variable {sheet : Sheet} {before after session : Session}

theorem sound_begin (site : Site) (sheet : Sheet) (entries : List JournalEntry) :
    (begin site sheet entries).Sound sheet where
  ready := ready_begin site sheet entries
  grown := .refl sheet
  packages := ⟨rfl, Package.views_catalog, nofun⟩
  roles kind := ⟨rfl, Role.views_catalog kind, nofun⟩

theorem noteSynthesis_eq (session : Session) (synthesized : Bool) :
    session.noteSynthesis synthesized =
      { session with assembly := (session.noteSynthesis synthesized).assembly } := by
  unfold noteSynthesis
  split <;> rfl

theorem Sound.withAssembly (sound : session.Sound sheet) {assembly : Assembly}
    (leads : session.Leads { session with assembly }) :
    Sound sheet { session with assembly } where
  ready := leads.ready sound.ready
  grown := sound.grown
  packages := sound.packages
  roles := sound.roles

theorem Sound.noteSynthesis (sound : session.Sound sheet) (synthesized : Bool) :
    Sound sheet (session.noteSynthesis synthesized) := by
  have leads := leads_noteSynthesis session synthesized
  rw [noteSynthesis_eq] at leads ⊢
  exact sound.withAssembly leads

theorem Sound.package (sound : session.Sound sheet) : Sound sheet session.package.2 := by
  let found := session.packages.consult session.sheet ""
  have grown := session.packages.grows_consult sound.ready.packages session.sheet ""
  have same := session.packages.ruleName_consult session.sheet ""
  have leads : session.Leads { session.withSheet found.sheet with packages := found.catalog } :=
    ⟨rfl, grown, same, fun _ => rfl, .refl⟩
  have served := sound.packages.consult ""
  have consulted :
      Sound sheet { session.withSheet found.sheet with packages := found.catalog } :=
    ⟨leads.ready sound.ready, sound.grown.trans grown, served.toSound,
      fun kind => (sound.roles kind).mono grown.isPrefix⟩
  exact consulted.noteSynthesis found.synthesized

theorem Sound.withRoles (sound : session.Sound sheet) {kind : RoleKind} {catalog : Catalog Role}
    {extended : Sheet} (grown : session.sheet.Grows Site.listRule extended)
    (found : Catalog.Sound kind.text (Rule.asRole kind) catalog extended) :
    Sound sheet ((session.withSheet extended).withRoles kind catalog) := by
  have same : catalog.ruleName = (session.roles kind).ruleName :=
    found.named.trans (sound.roles kind).named.symm
  refine ⟨(leads_withRoles grown same).ready sound.ready, sound.grown.trans grown,
    sound.packages.mono grown.isPrefix, fun other => ?_⟩
  have held := (sound.roles other).mono grown.isPrefix
  unfold Session.withRoles
  dsimp only
  split
  · rename_i chosen
    exact chosen ▸ found
  · exact held

private theorem Sound.role (sound : session.Sound sheet) (kind : RoleKind) (name : String) :
    Sound sheet (session.role kind name).2 := by
  have grown := (session.roles kind).grows_consult (sound.ready.roles kind) session.sheet name
  have served := (sound.roles kind).consult name
  exact (sound.withRoles grown served.toSound).noteSynthesis _

theorem Sound.rolesOf (sound : session.Sound sheet) (kinds : List RoleKind) :
    Sound sheet (session.rolesOf kinds).2 := by
  induction kinds generalizing session with
  | nil => exact sound
  | cons kind kinds ih =>
    let catalog := session.roles kind
    let keys := catalog.keys session.sheet
    have grown := catalog.grows_consultAll (sound.ready.roles kind) session.sheet keys
    have served := (sound.roles kind).consultAll keys
    exact ih (sound.withRoles grown served.toSound)

/-- A question for at most one file list leaves the catalogs sound. -/
theorem Sound.ask (sound : session.Sound sheet) {query : Query} (single : IsSingle query) :
    Sound sheet (session.ask query) := by
  cases query with
  | fileList name => exact sound.withAssembly (leads_fileList sound.ready name)
  | roleFiles role => cases single
  | resolveAll => cases single
  | role kind name => exact sound.role kind name
  | roles => exact sound.rolesOf RoleKind.all
  | package => exact sound.package
  | expand text location => exact sound.withAssembly (leads_expand session text location)
  | reference body => exact sound

theorem Sound.set (sound : session.Sound sheet) (name value : String) :
    Sound sheet (session.set name value) where
  ready := (keeps_set sound.ready name value).ready
  grown := sound.grown
  packages := sound.packages
  roles := sound.roles

theorem Sound.performAll (sound : session.Sound sheet) (operations : List Operation) :
    Sound sheet (session.performAll operations) := by
  rw [← performAll_singlyAll]
  have single (query : Query) (member : .query query ∈ session.singlyAll operations) :
      IsSingle query := isSingle_of_mem_singlyAll member
  generalize session.singlyAll operations = steps at single ⊢
  induction steps generalizing session with
  | nil => exact sound
  | cons step steps ih =>
    have rest (query : Query) (member : .query query ∈ steps) : IsSingle query :=
      single query (List.mem_cons_of_mem step member)
    cases step with
    | query query => exact ih (sound.ask (single query List.mem_cons_self)) rest
    | set name value => exact ih (sound.set name value) rest

/-- The views of a session are those of the first rules. In every state, each field of the package is
the last value of its property in the first rule of the loaded sheet for the package, and the file lists of
a role are those that the first rule with its selector includes; without such a rule there are none. The
cascade of all such rules has the value of the field, unless a rule behind the first one has another, and
all file lists of the role, with those of the rules behind the first one after them. It still says the same
after rules were synthesized. -/
theorem views_of_history (site : Site) (sheet : Sheet) (entries : List JournalEntry)
    (operations : List Operation) :
    let after := (begin site sheet entries).performAll operations
    (let rules := sheet.selected "package" none
      ∀ field ∈ after.package.1.fields,
        field.2 = (rules.head?.bind fun rule => (rule.view field.1).value?) ∧
          (rules.view field.1).value? = ((Cascade.view rules.tail field.1).value?).or field.2 ∧
          (after.sheet.selected "package" none).view field.1 = rules.view field.1) ∧
    ∀ (kind : RoleKind) (name : String),
      let rules := sheet.selected kind.text (some name)
      let role := (after.role kind name).1
      role.fileLists = (rules.head?.map fun rule => (rule.view "include").values).getD [] ∧
        (rules.view "include").values =
          role.fileLists ++ (Cascade.view rules.tail "include").values ∧
        (after.sheet.selected kind.text (some name)).view "include" = rules.view "include" := by
  intro after
  have sound : after.Sound sheet := (sound_begin site sheet entries).performAll operations
  constructor
  · intro rules field member
    obtain ⟨rule, made, same⟩ := sound.packages.exists_rule sound.grown sound.ready.packages ""
    have package : after.package.1 = rule.asPackage := made
    rw [package] at member
    have own : field.2 = (rules.head?.bind fun rule => (rule.view field.1).value?) := by
      rw [Rule.snd_of_mem_fields member, same, Sheet.first?_eq_head?]
      change _ = (Option.bind (sheet.selected "package" (some "")).head? _)
      cases (sheet.selected "package" (some "")).head? <;> rfl
    refine ⟨own, ?_, sound.grown.view_filter _ _⟩
    rw [own]
    exact Cascade.value?_view_of_tail rules field.1
  · intro kind name rules role
    obtain ⟨rule, made, same⟩ :=
      (sound.roles kind).exists_rule sound.grown (sound.ready.roles kind) name
    have own : role.fileLists =
        ((rules.head?.map fun rule : Rule => rule.view "include").getD {}).values := by
      rw [← Sheet.first?_eq_head?, ← same]
      exact congrArg Role.fileLists made
    refine ⟨?_, ?_, sound.grown.view_filter _ _⟩
    · rw [own]
      cases rules.head? <;> rfl
    · rw [own]
      exact Cascade.values_view_of_tail rules "include"

/-- A sheet in which a rule behind another one has the same selector, for the package and for a role. -/
def overridden : Sheet where
  rules :=
    [{ name := "package", properties := [⟨"name", ["a"], {}⟩] },
     { name := "package", properties := [⟨"name", ["b"], {}⟩] },
     { name := "application", parameter := some "tool", properties := [⟨"include", ["x"], {}⟩] },
     { name := "application", parameter := some "tool", properties := [⟨"include", ["y"], {}⟩] }]

/-- After questions for views, the views are still those of the first rules. -/
theorem views_of_history_overridden :
    let operations : List Operation := [.query .package, .query (.role .driver "tool"), .query .roles]
    let after := (begin emptyPlace overridden []).performAll operations
    ("name", after.package.1.name) ∈ after.package.1.fields ∧ after.package.1.name = some "a" ∧
      (after.role .application "tool").1.fileLists = ["x"] := by
  intro operations after
  obtain ⟨fields, roles⟩ := views_of_history emptyPlace overridden [] operations
  have field : ("name", after.package.1.name) ∈ after.package.1.fields := List.mem_cons_self
  obtain ⟨name, -⟩ := fields _ field
  obtain ⟨lists, -⟩ := roles .application "tool"
  exact ⟨field, name.trans (by decide), lists.trans (by decide)⟩

/-- Where there are two rules with a selector, the view is that of the first one, and the cascade has the
name of the last one and the lists of both. -/
theorem views_apart :
    let session := begin emptyPlace overridden []
    let (package, packaged) := session.package
    let (role, played) := session.role .application "tool"
    (package.name = some "a" ∧
      ((packaged.sheet.selected "package" none).view "name").value? = some "b") ∧
    role.fileLists = ["x"] ∧
      ((played.sheet.selected "application" (some "tool")).view "include").values = ["x", "y"] := by
  decide

end Session

end PackageSheet
