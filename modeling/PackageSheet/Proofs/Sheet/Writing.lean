import PackageSheet.Proofs.Sheet.Selector
import PackageSheet.Proofs.Token.Spelling

namespace PackageSheet

def literal (s : String) : String :=
  "@\x22" ++ String.ofList (doubled s.toList) ++ "\x22"

def Property.written (p : Property) : String :=
  p.name ++ ": " ++ ", ".intercalate (p.values.map literal) ++ ";"

def Rule.written (rule : Rule) : String :=
  rule.selectorText ++ " \x7b " ++ String.join (rule.properties.map Property.written) ++ "\x7d"

namespace Statement

def written : Statement → String
  | .rule r => r.written
  | .importFile target _ => "@import " ++ literal target ++ ";"

def writtenAll (statements : List Statement) : String :=
  "\n".intercalate (statements.map written)

end Statement

/-- A property has an identifier for its name and at least one value, and none of them is empty. -/
structure Property.Writable (p : Property) : Prop where
  named : IsName p.name.toList
  valued : p.values ≠ []
  full : ∀ v ∈ p.values, v ≠ ""

/-- A rule that a text can hold: its name, if there is one, is an identifier or a star, its class
and its id are identifiers, brackets are balanced in its parameter, which has no blanks at its ends,
it names something, and its properties have different names. It is not synthesized, as such rules
are those that no text holds. -/
structure Rule.Writable (rule : Rule) : Prop where
  named : rule.name = "" ∨ rule.name = "*" ∨ IsName rule.name.toList
  «class» : ∀ name ∈ rule.class, IsName name.toList
  id : ∀ name ∈ rule.id, IsName name.toList
  parameter : ∀ text ∈ rule.parameter, Balanced text.toList ∧ Text.Bare text.toList
  proper : ¬ rule.Nameless
  properties : ∀ p ∈ rule.properties, p.Writable
  distinct : (rule.properties.map Property.name).Nodup
  real : rule.synthesized = false

/-- A statement that a text can hold: such a rule, or the import of something. -/
def Statement.Writable : Statement → Prop
  | .rule r => r.Writable
  | .importFile target _ => target ≠ ""

def literalContent (s : String) : TokenKind × String :=
  (.atStringLiteral, s)

def valuesContents (values : List String) : List (TokenKind × String) :=
  (values.map literalContent).intersperse (.comma, ",")

def Property.contents (p : Property) : List (TokenKind × String) :=
  (.identifier, p.name) :: (.colon, ":") :: (valuesContents p.values ++ [(.semicolon, ";")])

namespace Rule

/-- What the tokens of a name say: none, a star, or an identifier. -/
def nameContents (name : String) : List (TokenKind × String) :=
  if name = "" then [] else if name = "*" then [(.symbol, name)] else [(.identifier, name)]

def markedContents (mark : TokenKind × String) (name : Option String) : List (TokenKind × String) :=
  name.elim [] fun name => [mark, (.identifier, name)]

def parameterContents (parameter : Option String) : List (TokenKind × String) :=
  parameter.elim [] fun text => [(.selectorParameter, text)]

def partsContents (rule : Rule) : List (TokenKind × String) :=
  markedContents (.dot, ".") rule.class ++ markedContents (.hash, "#") rule.id ++
    parameterContents rule.parameter

def contents (rule : Rule) : List (TokenKind × String) :=
  nameContents rule.name ++ rule.partsContents ++
    (.openBrace, "\x7b") :: (rule.properties.flatMap Property.contents ++ [(.closeBrace, "\x7d")])

end Rule

def Statement.contents : Statement → List (TokenKind × String)
  | .rule r => r.contents
  | .importFile target _ => [(.directive, "import"), literalContent target, (.semicolon, ";")]

section

variable {rest : List Char} {contents : List (TokenKind × String)}

private theorem toList_literal (s : String) :
    (literal s).toList = '@' :: '\x22' :: (doubled s.toList ++ ['\x22']) := by
  simp [literal]

theorem spells_literal (s : String) (stop : rest.head? ≠ some '\x22')
    (after : Spells rest contents) :
    Spells ((literal s).toList ++ rest) (literalContent s :: contents) := by
  have spelled := @Spells.literal s.toList rest contents stop after
  rw [String.ofList_toList] at spelled
  simpa [toList_literal, literalContent] using spelled

private theorem spells_values (values : List String) (stop : rest.head? ≠ some '\x22')
    (after : Spells rest contents) :
    Spells ((", ".intercalate (values.map literal)).toList ++ rest)
      (valuesContents values ++ contents) := by
  induction values with
  | nil => exact after
  | cons first others ih =>
    cases others with
    | nil => simpa [valuesContents] using spells_literal first stop after
    | cons second others =>
      have more := Spells.single (c := ',') rfl (.blank (c := ' ') rfl ih)
      have spelled := spells_literal first (by simp) more
      simpa [valuesContents, List.intercalate_cons_cons] using spelled

private theorem Property.Writable.spells {p : Property} (writable : p.Writable)
    (after : Spells rest contents) :
    Spells (p.written.toList ++ rest) (p.contents ++ contents) := by
  have ending := Spells.single (c := ';') rfl after
  have values := spells_values p.values (by simp) ending
  have spaced := Spells.single (c := ':') rfl (.blank (c := ' ') rfl values)
  have spelled := Spells.name writable.named (stops_cons (by decide)) spaced
  simpa [Property.written, Property.contents] using spelled

private theorem spells_properties {ps : List Property} (writable : ∀ p ∈ ps, p.Writable)
    (after : Spells rest contents) :
    Spells ((ps.flatMap fun p => p.written.toList) ++ rest)
      (ps.flatMap Property.contents ++ contents) := by
  induction ps with
  | nil => exact after
  | cons p ps ih =>
    obtain ⟨first, others⟩ := List.forall_mem_cons.mp writable
    simpa using first.spells (ih others)

namespace Rule

def marked (mark : Char) (name : Option String) : List Char :=
  name.elim [] fun name => mark :: name.toList

def enclosed (parameter : Option String) : List Char :=
  parameter.elim [] fun text => '[' :: (text.toList ++ [']'])

private theorem toList_selectorText (rule : Rule) :
    rule.selectorText.toList =
      rule.name.toList ++ (marked '.' rule.class ++ (marked '#' rule.id ++
        enclosed rule.parameter)) := by
  obtain ⟨name, id, «class», parameter, -, -, -⟩ := rule
  cases «class» <;> cases id <;> cases parameter <;>
    simp [selectorText, marked, enclosed]

private theorem stops_marked (mark : Char) (other : Dialect.hyphenated.isPart mark = false)
    (name : Option String) (stop : Stops rest) : Stops (marked mark name ++ rest) := by
  cases name with
  | none => exact stop
  | some name => exact stops_cons other

private theorem stops_enclosed (parameter : Option String) (stop : Stops rest) :
    Stops (enclosed parameter ++ rest) := by
  cases parameter with
  | none => exact stop
  | some text => exact stops_cons (by decide)

private theorem spells_marked (mark : Char) {kind : TokenKind} {name : Option String}
    (single : Lexeme.single? mark = some kind) (named : ∀ n ∈ name, IsName n.toList)
    (stop : Stops rest) (after : Spells rest contents) :
    Spells (marked mark name ++ rest)
      (markedContents (kind, String.ofList [mark]) name ++ contents) := by
  cases name with
  | none => exact after
  | some name =>
    have spelled := Spells.single single (.name (named name rfl) stop after)
    rw [String.ofList_toList] at spelled
    exact spelled

private theorem spells_enclosed {parameter : Option String}
    (proper : ∀ text ∈ parameter, Balanced text.toList ∧ Text.Bare text.toList)
    (after : Spells rest contents) :
    Spells (enclosed parameter ++ rest) (parameterContents parameter ++ contents) := by
  cases parameter with
  | none => exact after
  | some text =>
    obtain ⟨balanced, bare⟩ := proper text rfl
    have spelled := Spells.parameter balanced bare after
    rw [String.ofList_toList] at spelled
    simpa [enclosed, parameterContents] using spelled

private theorem spells_name {name : String} (named : name = "" ∨ name = "*" ∨ IsName name.toList)
    (stop : Stops rest) (after : Spells rest contents) :
    Spells (name.toList ++ rest) (nameContents name ++ contents) := by
  rcases named with rfl | rfl | named
  · exact after
  · exact after.star
  · have some : name ≠ "" ∧ name ≠ "*" := by
      constructor <;> · rintro rfl; exact absurd named (by decide)
    have spelled := Spells.name named stop after
    rw [String.ofList_toList] at spelled
    simpa [nameContents, some] using spelled

private theorem Writable.spells_selector {rule : Rule} (writable : rule.Writable) (stop : Stops rest)
    (after : Spells rest contents) :
    Spells (rule.selectorText.toList ++ rest)
      (nameContents rule.name ++ rule.partsContents ++ contents) := by
  have parameter := spells_enclosed writable.parameter after
  have stop := stops_enclosed rule.parameter stop
  have id := spells_marked '#' rfl writable.id stop parameter
  have stop := stops_marked '#' (by decide) rule.id stop
  have «class» := spells_marked '.' rfl writable.class stop id
  have stop := stops_marked '.' (by decide) rule.class stop
  simpa [toList_selectorText, partsContents] using spells_name writable.named stop «class»

private theorem Writable.spells {rule : Rule} (writable : rule.Writable) (after : Spells rest contents) :
    Spells (rule.written.toList ++ rest) (rule.contents ++ contents) := by
  have closing := Spells.single (c := '\x7d') rfl after
  have body := spells_properties writable.properties closing
  have opening := Spells.single (c := '\x7b') rfl (.blank (c := ' ') rfl body)
  have selector := writable.spells_selector (stops_cons (by decide))
    (.blank (c := ' ') rfl opening)
  simpa [written, Rule.contents, Function.comp_def, List.flatMap_map] using selector

end Rule

namespace Statement

private theorem Writable.spells {statement : Statement} (writable : statement.Writable)
    (after : Spells rest contents) :
    Spells (statement.written.toList ++ rest) (statement.contents ++ contents) := by
  cases statement with
  | rule r => exact Rule.Writable.spells writable after
  | importFile target location =>
    have ending := Spells.single (c := ';') rfl after
    have target := spells_literal target (by simp) ending
    have named : IsName "import".toList := by decide
    have spelled := Spells.directive named (stops_cons (by decide)) (.blank (c := ' ') rfl target)
    simpa [written, Statement.contents] using spelled

/-- Statements have the tokens one expects, whatever is written in their literals. -/
theorem spells_writtenAll {statements : List Statement}
    (writable : ∀ statement ∈ statements, statement.Writable) :
    Spells (writtenAll statements).toList (statements.flatMap Statement.contents) := by
  induction statements with
  | nil => exact .nil
  | cons first others ih =>
    obtain ⟨here, there⟩ := List.forall_mem_cons.mp writable
    cases others with
    | nil => simpa [writtenAll] using here.spells .nil
    | cons second others =>
      have spelled := here.spells (.blank (c := '\n') rfl (ih there))
      simpa [writtenAll, List.intercalate_cons_cons] using spelled

end Statement

end

end PackageSheet
