/-!
Paths keep their spelling and are compared by their components. A directory that is taken off a path
leaves the rest as it was written.
-/

namespace PackageSheet

/-- One step of a path. -/
inductive Component where
  | root
  | current
  | parent
  | name (text : String)
deriving DecidableEq

/-- The place of a kind of component in the order of paths. -/
def Component.rank : Component → Nat
  | .root => 0
  | .current => 1
  | .parent => 2
  | .name _ => 3

/-- Whether one component comes before another: roots first, then `.`, then `..`, then names
by code points. -/
def Component.before : Component → Component → Bool
  | .name a, .name b => a < b
  | a, b => a.rank < b.rank

def Component.isName : Component → Bool
  | .name _ => true
  | _ => false

/-- A component as it is written. -/
def Component.text : Component → String
  | .root => "/"
  | .current => "."
  | .parent => ".."
  | .name text => text

/-- A path keeps the text it was written with; what it denotes is its list of components. -/
structure Path where
  text : String
deriving DecidableEq, Inhabited

namespace Path

def segments (cs : List Char) : List (List Char) :=
  cs.splitOn '/'

/-- Whether a segment is a step at all: empty segments and `.` are not. -/
def isStep (segment : List Char) : Bool :=
  !segment.isEmpty && segment != ['.']

def step (segment : List Char) : Component :=
  if segment = ['.', '.'] then .parent else .name (String.ofList segment)

def steps (segments : List (List Char)) : List Component :=
  (segments.filter isStep).map step

/-- A path text is divided into what anchors it (`/`, a leading `.`, or nothing) and the
segments that follow. -/
def divide (path : Path) : Option Component × List (List Char) :=
  match segments path.text.toList with
  | [] => (none, [])
  | [only] => if only = ['.'] then (some .current, []) else (none, [only])
  | first :: second :: rest =>
    if first = [] then (some .root, second :: rest)
    else if first = ['.'] then (some .current, second :: rest)
    else (none, first :: second :: rest)

/-- The components of a path. Repeated slashes, a slash at the end and inner `.` do not count;
a leading `.` and every `..` do. -/
def components (path : Path) : List Component :=
  let (anchor, rest) := path.divide
  anchor.toList ++ steps rest

/-- Two paths are the same if they have the same components, however they are written. -/
def same (a b : Path) : Bool :=
  a.components == b.components

/-- Whether a path starts at the root. -/
def isAbsolute (path : Path) : Bool :=
  match path.text.toList with
  | '/' :: _ => true
  | _ => false

/-- Paths are ordered by their components, a shorter path before its extensions. -/
def componentsBefore : List Component → List Component → Bool
  | _, [] => false
  | [], _ :: _ => true
  | a :: as, b :: bs => a.before b || (a == b && componentsBefore as bs)

def le (a b : Path) : Bool :=
  !componentsBefore b.components a.components

def startsWith (path base : Path) : Bool :=
  base.components.isPrefixOf path.components

/-- The path of another below this one; an absolute one replaces it. -/
def join (base other : Path) : Path :=
  if other.isAbsolute then other
  else
    match base.text.toList.getLast? with
    | none => other
    | some '/' => ⟨base.text ++ other.text⟩
    | some _ => ⟨base.text ++ "/" ++ other.text⟩

def ofComponents (cs : List Component) : Path :=
  cs.foldl (fun path c => path.join ⟨c.text⟩) ⟨""⟩

/-- The segments up to the last that is a step. -/
def dropIdleEnd (segments : List (List Char)) : List (List Char) :=
  (segments.reverse.dropWhile (!isStep ·)).reverse

/-- The segments before the last that is a step; none if there is no step. -/
def beforeLastStep? (segments : List (List Char)) : Option (List (List Char)) :=
  match segments.reverse.dropWhile (!isStep ·) with
  | [] => none
  | _ :: before => some before.reverse

/-- The text of segments below an anchor. -/
def ofDivision (anchor : Option Component) (segments : List (List Char)) : Path :=
  let tail := ['/'].intercalate segments
  match anchor with
  | some .root => ⟨String.ofList ('/' :: tail)⟩
  | some c => ⟨if segments.isEmpty then c.text else c.text ++ String.ofList ('/' :: tail)⟩
  | none => ⟨String.ofList tail⟩

/-- The path without its last component, written as before. The root and the empty path have
none. -/
def parent? (path : Path) : Option Path :=
  let (anchor, rest) := path.divide
  match beforeLastStep? rest with
  | some before => some (ofDivision anchor (dropIdleEnd before))
  | none => if anchor = some .current then some ⟨""⟩ else none

/-- The last component, if it is a name. -/
def fileName? (path : Path) : Option String :=
  match path.components.getLast? with
  | some (.name text) => some text
  | _ => none

/-- The segments left after a number of steps, without idle ones at the start. -/
def dropSteps : Nat → List (List Char) → List (List Char)
  | 0, segments => segments.dropWhile (!isStep ·)
  | _ + 1, [] => []
  | n + 1, segment :: rest => dropSteps (if isStep segment then n else n + 1) rest

/-- What is left of a path below `base`, written as before; `none` if the path is not below. -/
def below? (path base : Path) : Option Path :=
  let (anchor, rest) := path.divide
  match base.components with
  | [] => some (ofDivision anchor (dropIdleEnd rest))
  | b =>
    if b.isPrefixOf path.components then
      some (ofDivision none (dropIdleEnd (dropSteps (b.length - anchor.toList.length) rest)))
    else none

end Path

end PackageSheet
