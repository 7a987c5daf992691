import PackageSheet.Diagnostic.Basic

namespace PackageSheet

/-- The causes of diagnostics, each with what its message names. -/
inductive Problem where
  | unrecognizedText (text : String)
  | unknownDirective (name : String)
  | unfinishedImport
  | importWithoutTarget
  | unopenedBlock (selector : String)
  | missingSelector
  | missingClassName
  | missingIdName
  | missingPropertyName
  | unfinishedRule (selector : String)
  | missingColon (property : String)
  | unfinishedProperty (property : String)
  | importInMemory (target : String)
  | unreadableImport (target reason : String)
  | circularImport (target : String)
  | undefinedList (name : String)
  | circularList (name : String)
  | ambiguousList (name : String) (count : Nat)
  | noMatches (pattern root : String)
  | badPattern (pattern reason : String)
  | badTrimPolicy (reason : String)
  | unresolvedReference (name : String)
  | circularReference (name : String)
deriving DecidableEq

namespace Problem

/-- The code under which a cause is reported. -/
def code : Problem → Code
  | .unrecognizedText _ => .lexicalAnomaly
  | .unknownDirective _ | .unfinishedImport | .importWithoutTarget | .unopenedBlock _
  | .missingSelector | .missingClassName | .missingIdName | .missingPropertyName
  | .unfinishedRule _ | .missingColon _ | .unfinishedProperty _ => .syntaxError
  | .importInMemory _ | .unreadableImport _ _ => .unknownImport
  | .circularImport _ => .circularImport
  | .undefinedList _ => .unknownFileList
  | .circularList _ => .circularReference
  | .ambiguousList _ _ => .ambiguousDefinition
  | .noMatches _ _ => .zeroMatches
  | .badPattern _ _ => .invalidPattern
  | .badTrimPolicy _ => .invalidEnumOption
  | .unresolvedReference _ => .unresolvedMacro
  | .circularReference _ => .circularMacro

/-- Causes that leave a usable result are warnings. -/
def severity : Problem → Severity
  | .unrecognizedText _ | .circularImport _ | .noMatches _ _ | .badTrimPolicy _
  | .unresolvedReference _ | .circularReference _ => .warning
  | _ => .error

/-- The message of a cause. -/
def message : Problem → String
  | .unrecognizedText text => s!"unrecognized text '{text}'"
  | .unknownDirective name => s!"unknown directive '@{name}'"
  | .unfinishedImport => "expected ';' after @import"
  | .importWithoutTarget => "@import requires a file name"
  | .unopenedBlock selector => s!"expected '\x7b' after selector '{selector}'"
  | .missingSelector => "rule has no selector"
  | .missingClassName => "expected class name in selector"
  | .missingIdName => "expected id name in selector"
  | .missingPropertyName => "expected property name"
  | .unfinishedRule selector => s!"unexpected end of sheet in rule '{selector}'"
  | .missingColon property => s!"expected ':' after property '{property}'"
  | .unfinishedProperty property => s!"expected ';' after property '{property}'"
  | .importInMemory target => s!"cannot import '{target}' from an in-memory sheet"
  | .unreadableImport target reason => s!"cannot import '{target}': {reason}"
  | .circularImport target => s!"'{target}' is already being imported; skipping"
  | .undefinedList name => s!"file list '{name}' is not defined"
  | .circularList name => s!"file list '{name}' includes itself"
  | .ambiguousList name count => s!"file list '{name}' is defined {count} times"
  | .noMatches pattern root => s!"'{pattern}' matched no files under {root}"
  | .badPattern pattern reason => s!"invalid pattern '{pattern}': {reason}"
  | .badTrimPolicy reason => s!"{reason}; expected none, all or minimal"
  | .unresolvedReference name => s!"macro '{name}' has no value"
  | .circularReference name => s!"macro '{name}' refers to itself"

def diagnose (problem : Problem) (location : Option Location) : Diagnostic :=
  ⟨problem.severity, problem.code, location, problem.message⟩

def diagnosedAt (problem : Problem) (location : Location) : Diagnostic :=
  problem.diagnose (some location)

end Problem

end PackageSheet
