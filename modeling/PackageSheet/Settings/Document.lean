import PackageSheet.Settings.Atom
import PackageSheet.Settings.Basic

/-!
Settings files. Every line is empty, assigns a value to a name, or opens the table of definitions.
Definitions can be given in a table in braces, by names with a dot, or below the line that opens
their table, but in one of these ways only, and each name once.
-/

namespace PackageSheet.Settings

/-- What a line assigns: a truth value, a text, or a table of texts in its order. -/
inductive Value where
  | truth (b : Bool)
  | text (s : String)
  | table (entries : List (String × String))

/-- The meaning of a line. -/
inductive Line where
  | empty
  | assign (name : List String) (value : Value)
  | openTable (name : List String)

namespace Line

/-- The name that an atom spells. -/
def name? : Atom → Option String
  | .bare word => some (String.ofList word)
  | .quoted text true => some (String.ofList text)
  | _ => none

/-- A name of one or more parts with dots between them, and the atoms after it. -/
def names? : List Atom → Option (List String × List Atom)
  | atom :: .mark '.' :: rest => do
    let name ← name? atom
    let (names, after) ← names? rest
    return (name :: names, after)
  | atom :: rest => (name? atom).map ([·], rest)
  | [] => none

/-- The entries of a table in braces, after the opening brace or a comma. -/
def entries? : List Atom → Option (List (String × String))
  | atom :: .mark '=' :: .quoted text _ :: .mark ',' :: rest => do
    let name ← name? atom
    let entries ← entries? rest
    return (name, String.ofList text) :: entries
  | [atom, .mark '=', .quoted text _, .mark '\x7d'] =>
    (name? atom).map fun name => [(name, String.ofList text)]
  | _ => none

/-- The value that some atoms spell. -/
def value? : List Atom → Option Value
  | [.bare ['t', 'r', 'u', 'e']] => some (.truth true)
  | [.bare ['f', 'a', 'l', 's', 'e']] => some (.truth false)
  | [.quoted text _] => some (.text (String.ofList text))
  | [.mark '\x7b', .mark '\x7d'] => some (.table [])
  | .mark '\x7b' :: rest => (entries? rest).map .table
  | _ => none

/-- The meaning of the atoms of a line. -/
def ofAtoms? : List Atom → Option Line
  | [] => some .empty
  | .mark '[' :: rest =>
    match names? rest with
    | some (name, [.mark ']']) => some (.openTable name)
    | _ => none
  | atoms =>
    match names? atoms with
    | some (name, .mark '=' :: rest) => (value? rest).map (.assign name)
    | _ => none

end Line

/-- The ways to give definitions. -/
inductive Manner where
  | braces
  | dots
  | table
deriving DecidableEq

/-- Settings while their file is read: what was assigned, and how definitions are given. -/
structure Draft where
  strict : Option Bool := none
  manner : Option Manner := none
  defines : Bindings := []

namespace Draft

/-- Add a definition with a new name. -/
def define? (draft : Draft) (name value : String) : Option Draft :=
  match draft.defines.get? name with
  | some _ => none
  | none => some { draft with defines := draft.defines.set name value }

/-- Add some definitions with new names. -/
def defineAll? (draft : Draft) : List (String × String) → Option Draft
  | [] => some draft
  | (name, value) :: entries => do
    let next ← draft.define? name value
    next.defineAll? entries

/-- Follow a line. -/
def follow? (draft : Draft) : Line → Option Draft
  | .empty => some draft
  | .openTable name =>
    if name = ["defines"] ∧ draft.manner = none then
      some { draft with manner := some .table }
    else none
  | .assign name value =>
    match draft.manner, name, value with
    | some .table, [name], .text value => draft.define? name value
    | some .table, _, _ => none
    | _, ["strict"], .truth b =>
      if draft.strict.isNone then some { draft with strict := some b } else none
    | none, ["defines"], .table entries =>
      { draft with manner := some .braces }.defineAll? entries
    | none, ["defines", name], .text value =>
      { draft with manner := some .dots }.define? name value
    | some .dots, ["defines", name], .text value => draft.define? name value
    | _, _, _ => none

def settings (draft : Draft) : Settings :=
  ⟨draft.defines, draft.strict.getD false⟩

end Draft

/-- The settings that a text gives; `none` if it is no settings file. -/
def ofText? (text : String) : Option Settings := do
  let atoms ← Atom.ofText text
  let lines ← (atoms.splitOn .lineEnd).mapM Line.ofAtoms?
  let draft ← lines.foldlM Draft.follow? {}
  return draft.settings

end PackageSheet.Settings
