import PackageSheet.Path

namespace PackageSheet

/-- How serious a diagnostic is: a warning leaves a usable result, an error takes part of it
away. -/
inductive Severity where
  | warning
  | error
deriving DecidableEq

def Severity.text : Severity → String
  | .warning => "warning"
  | .error => "error"

/-- What kind of condition a diagnostic reports. -/
inductive Code where
  | lexicalAnomaly
  | syntaxError
  | unknownImport
  | circularImport
  | unknownFileList
  | circularReference
  | ambiguousDefinition
  | zeroMatches
  | invalidEnumOption
  | invalidPattern
  | unresolvedMacro
  | circularMacro
deriving DecidableEq

namespace Code

/-- Every code. -/
def all : List Code :=
  [.lexicalAnomaly, .syntaxError, .unknownImport, .circularImport, .unknownFileList,
    .circularReference, .ambiguousDefinition, .zeroMatches, .invalidEnumOption,
    .invalidPattern, .unresolvedMacro, .circularMacro]

/-- The stable name of a code. -/
def text : Code → String
  | .lexicalAnomaly => "LexicalAnomaly"
  | .syntaxError => "SyntaxError"
  | .unknownImport => "UnknownImport"
  | .circularImport => "CircularImport"
  | .unknownFileList => "UnknownFileList"
  | .circularReference => "CircularReference"
  | .ambiguousDefinition => "AmbiguousDefinition"
  | .zeroMatches => "ZeroMatches"
  | .invalidEnumOption => "InvalidEnumOption"
  | .invalidPattern => "InvalidPattern"
  | .unresolvedMacro => "UnresolvedMacro"
  | .circularMacro => "CircularMacro"

def ofText? (name : String) : Option Code :=
  all.find? (·.text == name)

end Code

/-- A place in a sheet text; a text that was not read from a file has no file. Lines and
columns count from 1. -/
structure Location where
  file : Option Path := none
  line : Nat := 0
  column : Nat := 0
deriving DecidableEq, Inhabited

namespace Location

def directory? (location : Location) : Option Path :=
  location.file.bind Path.parent?

/-- A location as it is shown in front of a message. -/
def text (location : Location) : String :=
  let file := match location.file with
    | some path => path.text
    | none => "<sheet>"
  s!"{file}({location.line},{location.column})"

end Location

/-- A condition that ends the work on a sheet, placed as far as it is known: line or column 0
means unknown. -/
structure Fatal where
  message : String
  file : Option Path := none
  line : Nat := 0
  column : Nat := 0
deriving DecidableEq

/-- A fatal condition as it is shown, with the place in front where there is a file. -/
def Fatal.text (fatal : Fatal) : String :=
  match fatal.file with
  | none => s!"error: {fatal.message}"
  | some file =>
    let place :=
      if fatal.line = 0 then ""
      else if fatal.column = 0 then s!"({fatal.line})"
      else s!"({fatal.line},{fatal.column})"
    s!"{file.text}{place}: error: {fatal.message}"

/-- One reported condition. -/
structure Diagnostic where
  severity : Severity
  code : Code
  location : Option Location
  message : String
deriving DecidableEq

namespace Diagnostic

/-- A diagnostic as it is shown. -/
def text (d : Diagnostic) : String :=
  let place := match d.location with
    | some location => location.text ++ ": "
    | none => ""
  s!"{place}{d.severity.text} {d.code.text}: {d.message}"

/-- The fatal form of a diagnostic, at the same place. -/
def fatal (d : Diagnostic) : Fatal :=
  let message := s!"{d.code.text}: {d.message}"
  match d.location with
  | some location => ⟨message, location.file, location.line, location.column⟩
  | none => ⟨message, none, 0, 0⟩

end Diagnostic

end PackageSheet
