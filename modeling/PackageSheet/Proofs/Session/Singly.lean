import PackageSheet.Proofs.FileList.Origin
import PackageSheet.Proofs.Session.History

/-!
Every history is one of single requests. The files of a role and the resolution of everything are
questions one after another, each of which requests at most one file list (`askAll_singly`), so the
works of a history are those that its requests perform (`Made`), and what begins and ends of works
keep, every history keeps (`keeps_history`).
-/

namespace PackageSheet.Session

/-- The entries of file lists, whose names are expanded at a place, are asked for one by one. -/
def gathering (location : Location) : List String → Session → List Query
  | [], _ => []
  | raw :: raws, session =>
    let (name, expanded) := session.expand raw (some location)
    .expand raw (some location) :: .fileList name ::
      gathering location raws (expanded.fileList name).2

/-- So are the files of some roles. -/
def gatheringAll : List Role → Session → List Query
  | [], _ => []
  | role :: roles, session =>
    gathering role.location role.fileLists session ++ gatheringAll roles (session.roleFiles role).2

/-- A question as questions that request at most one file list each. -/
def singly (session : Session) : Query → List Query
  | .roleFiles role => gathering role.location role.fileLists session
  | .resolveAll =>
    let packaged := session.package.2
    let listed := (packaged.fileLists packaged.listNames).2
    .package :: packaged.listNames.map .fileList ++
      .roles :: gatheringAll listed.allRoles.1 listed.allRoles.2
  | query => [query]

/-- A history with its questions asked singly. -/
def singlyAll (session : Session) : List Operation → List Operation
  | [] => []
  | .query query :: operations =>
    (session.singly query).map .query ++ (session.ask query).singlyAll operations
  | .set name value :: operations => .set name value :: (session.set name value).singlyAll operations

/-- A question that requests at most one file list. -/
def IsSingle : Query → Prop
  | .roleFiles _ | .resolveAll => False
  | _ => True

variable {session : Session} {operations : List Operation}

theorem askAll_cons (session : Session) (query : Query) (queries : List Query) :
    session.askAll (query :: queries) = (session.ask query).askAll queries :=
  rfl

theorem askAll_append (session : Session) (first second : List Query) :
    session.askAll (first ++ second) = (session.askAll first).askAll second :=
  List.foldl_append

theorem performAll_append (session : Session) (first second : List Operation) :
    session.performAll (first ++ second) = (session.performAll first).performAll second :=
  List.foldl_append

theorem performAll_queries (session : Session) (queries : List Query) :
    session.performAll (queries.map .query) = session.askAll queries :=
  List.foldl_map

theorem askAll_gathering (location : Location) (raws : List String) (entries : List Entry)
    (session : Session) :
    session.askAll (gathering location raws session) =
      (gatherLists location raws entries session).2 := by
  induction raws generalizing session entries with
  | nil => rfl
  | cons raw raws ih => exact ih _ _

private theorem askAll_gatheringAll (roles : List Role) (session : Session) :
    session.askAll (gatheringAll roles session) =
      roles.foldl (fun session role => (session.roleFiles role).2) session := by
  induction roles generalizing session with
  | nil => rfl
  | cons role roles ih =>
    rw [gatheringAll, askAll_append, askAll_gathering _ _ [], List.foldl_cons]
    exact ih _

theorem askAll_fileLists (names : List String) (session : Session) :
    session.askAll (names.map .fileList) = (session.fileLists names).2 := by
  induction names generalizing session with
  | nil => rfl
  | cons name names ih => exact ih _

/-- Asked singly, a question leads where it did. -/
theorem askAll_singly (session : Session) (query : Query) :
    session.askAll (session.singly query) = session.ask query := by
  cases query with
  | roleFiles role => exact askAll_gathering _ _ [] session
  | resolveAll =>
    simp only [singly, askAll_append, askAll_cons, ask, askAll_fileLists, askAll_gatheringAll,
      resolveAll]
  | _ => rfl

theorem performAll_singlyAll (session : Session) (operations : List Operation) :
    session.performAll (session.singlyAll operations) = session.performAll operations := by
  induction operations generalizing session with
  | nil => rfl
  | cons operation operations ih =>
    cases operation with
    | query query =>
      rw [singlyAll, performAll_append, performAll_queries, askAll_singly]
      exact ih _
    | set name value => exact ih _

theorem isSingle_of_mem_gathering {location : Location} {raws : List String} {query : Query}
    (member : query ∈ gathering location raws session) : IsSingle query := by
  induction raws generalizing session with
  | nil => cases member
  | cons raw raws ih =>
    rcases List.mem_cons.mp member with rfl | member
    · trivial
    · rcases List.mem_cons.mp member with rfl | member
      · trivial
      · exact ih member

private theorem isSingle_of_mem_gatheringAll {roles : List Role} {query : Query}
    (member : query ∈ gatheringAll roles session) : IsSingle query := by
  induction roles generalizing session with
  | nil => cases member
  | cons role roles ih =>
    rcases List.mem_append.mp member with own | later
    · exact isSingle_of_mem_gathering own
    · exact ih later

private theorem isSingle_of_mem_singly {query other : Query} (member : other ∈ session.singly query) :
    IsSingle other := by
  cases query with
  | roleFiles role => exact isSingle_of_mem_gathering member
  | resolveAll =>
    rcases List.mem_append.mp member with early | late
    · rcases List.mem_cons.mp early with rfl | listed
      · trivial
      · obtain ⟨name, -, rfl⟩ := List.mem_map.mp listed
        trivial
    · rcases List.mem_cons.mp late with rfl | gathered
      · trivial
      · exact isSingle_of_mem_gatheringAll gathered
  | _ =>
    rw [List.mem_singleton.mp member]
    trivial

theorem isSingle_of_mem_singlyAll {query : Query}
    (member : .query query ∈ session.singlyAll operations) : IsSingle query := by
  induction operations generalizing session with
  | nil => cases member
  | cons operation operations ih =>
    cases operation with
    | query first =>
      rcases List.mem_append.mp member with own | later
      · obtain ⟨other, asked, same⟩ := List.mem_map.mp own
        cases same
        exact isSingle_of_mem_singly asked
      · exact ih later
    | set name value =>
      rcases List.mem_cons.mp member with other | later
      · cases other
      · exact ih later

theorem slots_noteSynthesis (session : Session) (synthesized : Bool) :
    (session.noteSynthesis synthesized).assembly.slots = session.assembly.slots := by
  unfold noteSynthesis
  split <;> rfl

theorem assembly_rolesOf (session : Session) (kinds : List RoleKind) :
    (session.rolesOf kinds).2.assembly = session.assembly := by
  induction kinds generalizing session with
  | nil => rfl
  | cons kind kinds ih => exact ih _

private theorem slots_package (session : Session) :
    session.package.2.assembly.slots = session.assembly.slots := by
  unfold package
  rw [slots_noteSynthesis]
  rfl

private theorem slots_role (session : Session) (kind : RoleKind) (name : String) :
    (session.role kind name).2.assembly.slots = session.assembly.slots := by
  unfold role
  rw [slots_noteSynthesis]
  rfl

/-- A single question that is none for a file list changes no slot. -/
theorem slots_ask {query : Query} (single : IsSingle query) (other : ∀ name, query ≠ .fileList name) :
    (session.ask query).assembly.slots = session.assembly.slots := by
  cases query with
  | fileList name => exact absurd rfl (other name)
  | roleFiles role => cases single
  | resolveAll => cases single
  | role kind name => rw [ask, slots_role]
  | package => rw [ask, slots_package]
  | roles => rw [ask, allRoles, assembly_rolesOf]
  | expand text location => rfl
  | reference body => rfl

/-- The works of a history are those that its requests for file lists perform. -/
def Made (session : Session) (operations : List Operation) (making : Making) : Prop :=
  ∃ before name after, session.singlyAll operations = before ++ .query (.fileList name) :: after ∧
    let there := session.performAll before
    there.site.Performs there.assembly.slots.length name there.assembly making

/-- What holds of slots, and is kept where a work begins and where it ends, is kept by a history. -/
theorem keeps_history {holds : Slots → Prop}
    (begins : ∀ slots name, holds slots → slots.progress? name = some .unvisited →
      holds (slots.mark name .inProgress))
    (ends : ∀ making, session.Made operations making → making.Throughout holds →
      holds ((making.excluded making.recipe.excludes).2.slots.mark making.recipe.name
        (.done making.entries)))
    (held : holds session.assembly.slots) :
    holds (session.performAll operations).assembly.slots := by
  have reached (steps : List Operation) (front : steps <+: session.singlyAll operations) :
      holds (session.performAll steps).assembly.slots := by
    induction steps using List.reverseRecOn with
    | nil => exact held
    | append_singleton before operation ih =>
      have kept := ih ((List.prefix_append before [operation]).trans front)
      obtain ⟨after, split⟩ := front
      rw [performAll_append]
      cases operation with
      | set name value => exact kept
      | query query =>
        by_cases listed : ∃ name, query = .fileList name
        · obtain ⟨name, rfl⟩ := listed
          have parted : session.singlyAll operations =
              before ++ .query (.fileList name) :: after := by simp [← split]
          exact Site.keeps_visit begins
            (fun making performs => ends making ⟨before, name, after, parted, performs⟩) kept
        · have member : .query query ∈ session.singlyAll operations := by simp [← split]
          have same : ((session.performAll before).ask query).assembly.slots =
              (session.performAll before).assembly.slots :=
            slots_ask (isSingle_of_mem_singlyAll member) fun name found => listed ⟨name, found⟩
          exact same ▸ kept
  rw [← performAll_singlyAll]
  exact reached _ (List.prefix_refl _)

end PackageSheet.Session
