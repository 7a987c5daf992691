import PackageSheet.FileList.Entry
import PackageSheet.Glob.Rooted
import PackageSheet.Storage.Basic
import PackageSheet.Template.Expansion

/-!
What a rule asks of its file list, with every reference expanded. None of this depends on other
lists, so the tokens of a recipe also tell which lists it can ask for.
-/

namespace PackageSheet

/-- A value, and what is reported on the way to it. -/
structure Reported (α : Type) where
  value : α
  reports : List Diagnostic := []

/-- Where file lists are assembled: the scope of their references and the files at hand. -/
structure Site where
  scope : Scope
  storage : Storage

/-- What a rule asks of its file list. -/
structure Recipe where
  name : String
  location : Location
  root : Reported Path
  includes : List (Reported String)
  excludes : List (Reported String)
  policy : Reported TrimPolicy
  destination : Reported String

namespace Site

def listRule : String := "files"

def expand (site : Site) (text : String) (location : Option Location) : Reported String :=
  let expansion := site.scope.expand text
  ⟨expansion.string, expansion.diagnostics location⟩

/-- The directory that a root in a sheet starts from: that of the sheet, if it has one. -/
def baseDirectory (site : Site) (location : Location) : Path :=
  match location.directory? with
  | some directory =>
    if directory.text = "" then site.storage.workingDirectory else directory
  | none => site.storage.workingDirectory

/-- The directory below which a rule looks for files. -/
def root (site : Site) (rule : Rule) : Reported Path :=
  match (rule.view "root").value? with
  | none => ⟨site.storage.workingDirectory, []⟩
  | some raw =>
    let text := site.expand raw (some rule.location)
    let path : Path := ⟨text.value⟩
    ⟨if path.isAbsolute then path else (site.baseDirectory rule.location).join path, text.reports⟩

/-- The policy by which a rule trims destinations. A word that is none is reported, and nothing
is trimmed. -/
def policy (site : Site) (rule : Rule) : Reported TrimPolicy :=
  let view := rule.view "trim-path"
  match view.value? with
  | none => ⟨.keep, []⟩
  | some raw =>
    let text := site.expand raw view.location
    match TrimPolicy.ofText? text.value with
    | some policy => ⟨policy, text.reports⟩
    | none =>
      let problem := Problem.badTrimPolicy (TrimPolicy.complaint text.value)
      ⟨.keep, text.reports ++ [problem.diagnose view.location]⟩

/-- The directory of the package in which a rule places its files. -/
def destination (site : Site) (rule : Rule) : Reported String :=
  match (rule.view "destination").value? with
  | none => ⟨"", []⟩
  | some raw => site.expand raw (some rule.location)

def tokens (site : Site) (rule : Rule) (property : String) : List (Reported String) :=
  (rule.view property).values.map (site.expand · (some rule.location))

/-- What a rule asks of its file list. -/
def recipe (site : Site) (rule : Rule) : Recipe where
  name := rule.key
  location := rule.location
  root := site.root rule
  includes := site.tokens rule "include"
  excludes := site.tokens rule "exclude"
  policy := site.policy rule
  destination := site.destination rule

def recipes (site : Site) (name : String) : List Recipe :=
  (site.scope.sheet.selected listRule (some name)).map site.recipe

/-- The entries for the files that a pattern stands for. -/
def found (site : Site) (recipe : Recipe) (pattern : String) : Reported (List Entry) :=
  let root := recipe.root.value
  match site.storage.glob root pattern with
  | .error fault =>
    ⟨[], [(Problem.badPattern pattern fault.kind.message).diagnosedAt recipe.location]⟩
  | .ok [] => ⟨[], [(Problem.noMatches pattern root.text).diagnosedAt recipe.location]⟩
  | .ok files => ⟨files.map (Entry.below root), []⟩

/-- The entries that a pattern does not exclude. -/
def kept (recipe : Recipe) (pattern : String) (entries : List Entry) : Reported (List Entry) :=
  match Glob.Exclusion.compile pattern with
  | .error fault =>
    ⟨entries, [(Problem.badPattern pattern fault.kind.message).diagnosedAt recipe.location]⟩
  | .ok exclusion => ⟨entries.filter fun entry => !exclusion.excludes entry.source, []⟩

end Site

end PackageSheet
