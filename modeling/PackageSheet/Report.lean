import PackageSheet.Console
import PackageSheet.Environment
import PackageSheet.FileList.Listing
import PackageSheet.Invocation
import PackageSheet.Session
import PackageSheet.Settings.Load

namespace PackageSheet

/-- What commands find around them: files, variables of the environment, the directory of logs
and the version of the program. -/
structure Surroundings where
  disk : Disk
  environment : List (String × String)
  logs : Option Path
  version : String

/-- What a command tells, in order, and the reasons of its failure, the outermost first. -/
structure Report where
  notices : List Notice := []
  failure : Option (List String) := none

namespace Report

def success (notices : List Notice) : Report :=
  ⟨notices, none⟩

def after (notices : List Notice) (report : Report) : Report :=
  { report with notices := notices ++ report.notices }

def output (report : Report) : String :=
  String.join (report.notices.map Notice.output)

def errorOutput (report : Report) : String :=
  String.join (report.notices.map Notice.errorOutput)

def log (report : Report) : List String :=
  report.notices.filterMap Notice.log

end Report

namespace Invocation

/-- The name of the command. -/
def name (invocation : Invocation) : CommandName :=
  match invocation.command with
  | .tokens => .tokens
  | .files .. => .files
  | .eval .. => .eval
  | .roles => .roles
  | .check => .check
  | .version => .version

/-- The directory for logs in an environment: below that for caches, or that of the user. -/
def logDirectory (environment : Answers) : Path :=
  let caches : Path := match environment.get? "XDG_CACHE_HOME" with
    | some path => ⟨path⟩
    | none =>
      let home := (environment.get? "HOME").or (environment.get? "USERPROFILE")
      (Path.mk (home.getD ".")).join ⟨".cache"⟩
  caches.join ⟨"pkgrules"⟩

def logPath (invocation : Invocation) (logs : Path) : Path :=
  logs.join ⟨invocation.name.text ++ ".log"⟩

/-- The files that the command works on. -/
def storage (invocation : Invocation) (surroundings : Surroundings) : Storage :=
  let disk := surroundings.disk
  .onDisk { disk with
    workingDirectory := invocation.baseDirectory.getD disk.workingDirectory }

def told (before after : Session) : List Notice :=
  (after.assembly.journal.entries.drop before.assembly.journal.entries.length).map Notice.ofEntry

def tableOf (settings : Settings) : Bindings :=
  settings.defines.foldl (fun table (name, value) => table.set (Text.lowercase name) value) []

/-- Begin a session on the sheet, with the settings for it. -/
def withSettings (invocation : Invocation) (surroundings : Surroundings) (settings : Settings)
    (work : Settings → Session → Report) : Report :=
  let storage := invocation.storage surroundings
  let scope : Scope :=
    { sheet := {}
      table := tableOf settings
      environment := Environment.ofVariables surroundings.environment }
  let begun := [.detail s!"{settings.defines.length} define(s), strict: {settings.strict}",
    .detail s!"sheet: {invocation.sheet.text}"]
  match Session.load ⟨scope, storage⟩ invocation.sheet with
  | .error fatal => ⟨begun, some [fatal.text]⟩
  | .ok session =>
    let sheet := session.sheet
    let loaded :=
      s!"loaded {sheet.rules.length} rule(s) from {sheet.sources.length} file(s)"
    (work settings session).after
      (begun ++ session.assembly.journal.entries.map Notice.ofEntry ++ [.detail loaded])

/-- Load the settings, begin a session on the sheet and do some work on it. -/
def withSession (invocation : Invocation) (surroundings : Surroundings)
    (work : Settings → Session → Report) : Report :=
  let path := Settings.pathFor invocation.sheet invocation.config
  let (loaded, notes) := Settings.load (invocation.storage surroundings) path
  let begun := Notice.detail s!"config: {path.text}" :: notes.map .detail
  match loaded with
  | .error fault => ⟨begun, some (s!"loading {path.text}" :: fault.chain)⟩
  | .ok file =>
    match file.applyDefines invocation.defines with
    | (_, some text) => ⟨begun, some (SettingsFault.badDefine text).chain⟩
    | (settings, none) =>
      (invocation.withSettings surroundings settings work).after begun

/-- List the tokens of the sheet. -/
def tokens (invocation : Invocation) (surroundings : Surroundings) : Report :=
  match (invocation.storage surroundings).read invocation.sheet with
  | .error failure => ⟨[], some [s!"reading {invocation.sheet.text}", failure.text]⟩
  | .ok text =>
    let tokens := Token.ofText .hyphenated text
    let unknown := tokens.countP (·.kind == .unknown)
    let complaint :=
      if unknown = 0 then [] else [.warning s!"{unknown} unrecognized token(s)"]
    .success (tokens.map (.result ·.describe) ++ complaint)

/-- Resolve file lists, all if none is named, and print their entries. -/
def files (lists : List String) (json : Bool) (log : Option Path) (session : Session) : Report :=
  let (found, after) := session.fileLists (if lists.isEmpty then session.listNames else lists)
  let printed :=
    if json then [.result (Listing.json found)]
    else
      found.flatMap (fun (name, entries) =>
          .stage s!"files[{name}] ({entries.length} entries)" ::
            entries.map (.result <| Listing.line ·)) ++
        Notice.summary after.diagnostics log
  .success (told session after ++ printed)

/-- Expand texts one after another, and print them. -/
def expandAll (session : Session) : List String → List Notice
  | [] => []
  | text :: texts =>
    let (expanded, after) := session.expand text none
    told session after ++ .result expanded :: expandAll after texts

/-- Print the value of each reference, or the expansion of each text. -/
def eval (macros : List String) (expand : Bool) (session : Session) : Report :=
  if expand then .success (expandAll session macros)
  else
    let missing := macros.countP fun name => (session.reference? name).isNone
    let notices := macros.map fun name =>
      match session.reference? name with
      | some value => .result s!"{name} = {value}"
      | none => .warning s!"{name}: no value"
    ⟨notices, if missing = 0 then none else some [s!"{missing} macro(s) have no value"]⟩

/-- Print the files of roles one after another. -/
def rolesInTurn (session : Session) : List Role → List Notice × Session
  | [] => ([], session)
  | role :: roles =>
    let (entries, after) := session.roleFiles role
    let (others, last) := rolesInTurn after roles
    (.stage s!"{role.kind.text}[{role.name}]" :: told session after ++
      entries.map (.result <| Listing.line ·) ++ others, last)

/-- Print the package, and every role with its files. -/
def roles (log : Option Path) (session : Session) : Report :=
  let (package, packaged) := session.package
  let field (value : Option String) := value.getD "-"
  let shown := [.stage "Package", .info s!"name:      {field package.name}",
    .info s!"version:   {field package.version}", .info s!"arch:      {field package.arch}",
    .info s!"publisher: {field package.publisher}"]
  let missing := if package.synthesized then [.warning "sheet has no package rule"] else []
  let (found, listed) := packaged.allRoles
  let none := if found.isEmpty then [.info "no roles defined"] else []
  let (printed, last) := rolesInTurn listed found
  .success (told session packaged ++ shown ++ missing ++ told packaged listed ++ none ++ printed ++
    Notice.summary last.diagnostics log)

/-- Resolve everything, and fail if an error was reported, or under strict settings anything. -/
def check (sheet : Path) (log : Option Path) (settings : Settings) (session : Session) : Report :=
  let last := session.resolveAll
  let tally := Tally.of last.diagnostics
  let failure :=
    match last.diagnostics.find? (·.severity == .error) with
    | some first => some [s!"{tally.errors} error(s) found", first.fatal.text]
    | none =>
      if settings.strict && 0 < tally.warnings then
        some [s!"{tally.warnings} warning(s) found (strict)"]
      else none
  ⟨.stage s!"Checking {sheet.text}" :: told session last ++
    Notice.summary last.diagnostics log, failure⟩

/-- Do what the arguments ask for. -/
def run (invocation : Invocation) (surroundings : Surroundings) : Report :=
  let log := surroundings.logs.map invocation.logPath
  match invocation.command with
  | .tokens => invocation.tokens surroundings
  | .files lists json => invocation.withSession surroundings fun _ => files lists json log
  | .eval macros expand => invocation.withSession surroundings fun _ => eval macros expand
  | .roles => invocation.withSession surroundings fun _ => roles log
  | .check => invocation.withSession surroundings (check invocation.sheet log)
  | .version => .success [.result s!"pkgrules {surroundings.version}"]

end Invocation

end PackageSheet
