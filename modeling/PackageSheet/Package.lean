import PackageSheet.Catalog

namespace PackageSheet

/-- What a sheet says about its package. -/
structure Package where
  name : Option String
  version : Option String
  arch : Option String
  publisher : Option String
  location : Location
  synthesized : Bool
deriving DecidableEq

namespace Package

/-- The package of the rule at an index. -/
def ofRule (sheet : Sheet) (index : Nat) : Package :=
  let rule := sheet.rules[index]?
  let value (property : String) := rule.bind fun r => (r.view property).value?
  { name := value "name"
    version := value "version"
    arch := value "arch"
    publisher := value "publisher"
    location := (rule.map (·.location)).getD {}
    synthesized := (rule.map (·.synthesized)).getD false }

def catalog : Catalog Package :=
  ⟨"package", ofRule, []⟩

end Package

/-- The kinds of roles that a package can play. -/
inductive RoleKind where
  | application
  | assembly
  | developerLibrary
  | service
  | webApplication
  | driver
deriving DecidableEq

namespace RoleKind

def all : List RoleKind :=
  [.application, .assembly, .developerLibrary, .service, .webApplication, .driver]

/-- The name of the rules of a kind. -/
def text : RoleKind → String
  | .application => "application"
  | .assembly => "assembly"
  | .developerLibrary => "developer-library"
  | .service => "service"
  | .webApplication => "web-application"
  | .driver => "driver"

def ofText? (name : String) : Option RoleKind :=
  all.find? (·.text == name)

def complaint (name : String) : String :=
  s!"unknown role '{name}'"

end RoleKind

/-- A role of a package, with the names of its file lists as they are written. -/
structure Role where
  kind : RoleKind
  name : String
  fileLists : List String
  location : Location
  synthesized : Bool
deriving DecidableEq

namespace Role

/-- The role of the rule at an index. -/
def ofRule (kind : RoleKind) (sheet : Sheet) (index : Nat) : Role :=
  let rule := sheet.rules[index]?
  { kind
    name := (rule.map (·.key)).getD ""
    fileLists := (rule.map fun r => (r.view "include").values).getD []
    location := (rule.map (·.location)).getD {}
    synthesized := (rule.map (·.synthesized)).getD false }

def catalog (kind : RoleKind) : Catalog Role :=
  ⟨kind.text, ofRule kind, []⟩

end Role

end PackageSheet
