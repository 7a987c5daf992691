import PackageSheet.FileList.Assembly
import PackageSheet.Package
import PackageSheet.Sheet.Load

/-!
A session is the work on one sheet: it expands references, assembles file lists and gives typed
views of the package and its roles, and keeps what was found and reported on the way.
-/

namespace PackageSheet

/-- The work on one sheet. -/
structure Session where
  site : Site
  assembly : Assembly := {}
  packages : Catalog Package := Package.catalog
  roles : RoleKind → Catalog Role := Role.catalog

namespace Session

def begin (site : Site) (sheet : Sheet) (entries : List JournalEntry) : Session where
  site := { site with scope := { site.scope with sheet } }
  assembly := ⟨.declare (sheet.parameters Site.listRule), { entries }⟩

/-- A session on a sheet in memory. -/
def ofText (site : Site) (text : String) : Session :=
  let (sheet, problems) := Sheet.ofText text
  begin site sheet (problems.map .diagnostic)

/-- A session on a sheet in a file. -/
def load (site : Site) (path : Path) : Except Fatal Session :=
  (Sheet.load site.storage path).map fun (sheet, entries) => begin site sheet entries

def sheet (session : Session) : Sheet :=
  session.site.scope.sheet

def withSheet (session : Session) (sheet : Sheet) : Session :=
  { session with site := { session.site with scope := { session.site.scope with sheet } } }

def diagnostics (session : Session) : List Diagnostic :=
  session.assembly.journal.diagnostics

def listNames (session : Session) : List String :=
  session.assembly.slots.map (·.1)

def progress? (session : Session) (name : String) : Option Progress :=
  session.assembly.slots.progress? name

def set (session : Session) (name value : String) : Session :=
  { session with site := { session.site with scope := session.site.scope.set name value } }

/-- What a reference stands for. -/
def reference? (session : Session) (body : String) : Option String :=
  session.site.scope.resolve? body.toList

/-- Expand every reference in a text, and report at a place. -/
def expand (session : Session) (text : String) (location : Option Location) :
    String × Session :=
  let expanded := session.site.expand text location
  (expanded.value, { session with assembly := session.assembly.reportAll expanded.reports })

def fileList (session : Session) (name : String) : Option (List Entry) × Session :=
  let (entries, assembly) := session.site.resolve name session.assembly
  (entries, { session with assembly })

/-- Some file lists one after another, each with its name; those that cannot be had are left
out. -/
def fileLists (session : Session) : List String → List (String × List Entry) × Session
  | [] => ([], session)
  | name :: names =>
    let (entries, after) := session.fileList name
    let (others, last) := after.fileLists names
    ((entries.map (name, ·)).toList ++ others, last)

/-- Note that a rule was synthesized, if one was. -/
def noteSynthesis (session : Session) (synthesized : Bool) : Session :=
  if synthesized then
    { session with
      assembly := session.assembly.note "synthesizing rule for missing selector" }
  else session

/-- The package of the sheet. -/
def package (session : Session) : Package × Session :=
  let found := session.packages.consult session.sheet ""
  let after := { session.withSheet found.sheet with packages := found.catalog }
  (found.value, after.noteSynthesis found.synthesized)

def withRoles (session : Session) (kind : RoleKind) (catalog : Catalog Role) : Session :=
  { session with roles := fun other => if other = kind then catalog else session.roles other }

/-- The role of a kind and a name. -/
def role (session : Session) (kind : RoleKind) (name : String) : Role × Session :=
  let found := (session.roles kind).consult session.sheet name
  let after := (session.withSheet found.sheet).withRoles kind found.catalog
  (found.value, after.noteSynthesis found.synthesized)

/-- The roles of some kinds that the sheet defines, kind by kind. -/
def rolesOf (session : Session) : List RoleKind → List Role × Session
  | [] => ([], session)
  | kind :: kinds =>
    let catalog := session.roles kind
    let (found, last, sheet) :=
      catalog.consultAll session.sheet (catalog.keys session.sheet)
    let (others, after) := ((session.withSheet sheet).withRoles kind last).rolesOf kinds
    (found.map (·.2) ++ others, after)

def allRoles (session : Session) : List Role × Session :=
  session.rolesOf RoleKind.all

/-- Gather the entries of file lists, whose names are expanded at a place. -/
def gatherLists (location : Location) :
    List String → List Entry → Session → List Entry × Session
  | [], entries, session => (entries, session)
  | raw :: raws, entries, session =>
    let (name, expanded) := session.expand raw (some location)
    let (more, after) := expanded.fileList name
    gatherLists location raws (Entry.gather entries (more.getD [])) after

/-- The entries of the file lists of a role, one for each file. -/
def roleFiles (session : Session) (role : Role) : List Entry × Session :=
  gatherLists role.location role.fileLists [] session

/-- Resolve the package, every file list, and the files of every role. -/
def resolveAll (session : Session) : Session :=
  let (_, packaged) := session.package
  let (_, listed) := packaged.fileLists packaged.listNames
  let (roles, found) := listed.allRoles
  roles.foldl (fun session role => (session.roleFiles role).2) found

end Session

end PackageSheet
