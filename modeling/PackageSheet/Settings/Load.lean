import PackageSheet.Settings.Document
import PackageSheet.Storage.Basic

namespace PackageSheet

/-- Why settings cannot be had. -/
inductive SettingsFault where
  | unreadable (path : Path) (failure : ReadFailure)
  | malformed (path : Path)
  | badDefine (text : String)
deriving DecidableEq

namespace SettingsFault

/-- The wording of a fault. -/
def text : SettingsFault → String
  | .unreadable path failure => s!"IO error reading config file {path.text}: {failure.text}"
  | .malformed path => s!"Invalid config in {path.text}"
  | .badDefine define => Settings.complaint define

/-- The wording of a fault, followed by that of its cause if it has one. -/
def chain (fault : SettingsFault) : List String :=
  match fault with
  | .unreadable _ failure => [fault.text, failure.text]
  | .malformed _ | .badDefine _ => [fault.text]

end SettingsFault

namespace Settings

/-- The settings in a file, with a note where there is no file. -/
def load (storage : Storage) (path : Path) : Except SettingsFault Settings × List String :=
  if storage.holds path then
    match storage.read path with
    | .error failure => (.error (.unreadable path failure), [])
    | .ok text =>
      match ofText? text with
      | some settings => (.ok settings, [])
      | none => (.error (.malformed path), [])
  else (.ok {}, [s!"no config at {path.text}; using defaults"])

end Settings

end PackageSheet
