import PackageSheet.Bindings
import PackageSheet.Path
import PackageSheet.Text.Blank

namespace PackageSheet

/-- Settings of the work on a sheet: values for references, in the order of their names, and
whether warnings count as failures. -/
structure Settings where
  defines : Bindings := []
  strict : Bool := false
deriving DecidableEq

namespace Settings

def fileName : String := "pkgrules.toml"

/-- The settings file for a sheet: the one that is given, or the one next to the sheet. -/
def pathFor (sheet : Path) (given : Option Path) : Path :=
  match given with
  | some path => path
  | none => (sheet.parent?.getD ⟨""⟩).join ⟨fileName⟩

/-- The characters before the first equals sign and those after it. -/
def splitEquals : List Char → Option (List Char × List Char)
  | [] => none
  | c :: cs =>
    if c = '=' then some ([], cs)
    else (splitEquals cs).map fun (before, after) => (c :: before, after)

/-- The name and the value of a definition; the name must not be blank. -/
def parseDefine? (text : String) : Option (String × String) :=
  match splitEquals text.toList with
  | some (name, value) =>
    if Text.trim name = [] then none
    else some (String.ofList (Text.trim name), String.ofList value)
  | none => none

def complaint (text : String) : String :=
  s!"Invalid define '{text}': expected KEY=VALUE"

/-- The settings with more definitions, up to the first text that is none, which comes back
as well. -/
def applyDefines (settings : Settings) : List String → Settings × Option String
  | [] => (settings, none)
  | text :: texts =>
    match parseDefine? text with
    | none => (settings, some text)
    | some (name, value) =>
      applyDefines { settings with defines := settings.defines.set name value } texts

end Settings

end PackageSheet
