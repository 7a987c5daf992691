import PackageSheet.Sheet.Statement

/-!
The grammar of sheets, over tokens of known classes. A sheet is made of semicolons, imports and
rules; a rule has a selector and, between braces, properties with values between commas. A value
runs over whatever does not separate values, and over groups: a dollar sign with an opening brace
right after it, and all that follows up to the next closing brace.
-/

namespace PackageSheet.Grammar

def Separates (t : Token) : Prop :=
  t.kind = .comma ∨ t.kind = .semicolon ∨ t.kind = .openBrace ∨ t.kind = .closeBrace

def IsDollar (t : Token) : Prop :=
  t.kind = .symbol ∧ t.text = "$"

/-- The tokens of a value. Only at the end of the sheet may the last group be left open. -/
inductive Value (final : Prop) : List Token → Prop where
  | nil : Value final []
  | token {t : Token} {ts : List Token} (inside : ¬ Separates t) (rest : Value final ts) :
      Value final (t :: ts)
  | group {dollar opening closing : Token} {within ts : List Token} (sign : IsDollar dollar)
      (opens : opening.kind = .openBrace) (inside : ∀ t ∈ within, t.kind ≠ .closeBrace)
      (closes : closing.kind = .closeBrace) (rest : Value final ts) :
      Value final (dollar :: opening :: (within ++ closing :: ts))
  | openGroup {dollar opening : Token} {within : List Token} (last : final)
      (sign : IsDollar dollar) (opens : opening.kind = .openBrace)
      (inside : ∀ t ∈ within, t.kind ≠ .closeBrace) : Value final (dollar :: opening :: within)

/-- The value that some tokens stand for is not empty: one of them is no literal, and is taken as it
is written, or is a literal that is not empty. -/
def Valued (ts : List Token) : Prop :=
  ∃ t ∈ ts, t.isString = false ∨ t.text ≠ ""

/-- Values with commas between them. -/
inductive Values (final : Prop) : List Token → Prop where
  | one {v : List Token} (value : Value final v) : Values final v
  | more {v vs : List Token} {comma : Token} (value : Value False v) (sep : comma.kind = .comma)
      (rest : Values final vs) : Values final (v ++ comma :: vs)

/-- A property: its name, a colon, and its values. -/
inductive Property (final : Prop) : List Token → Prop where
  | intro {name colon : Token} {vs : List Token} (named : name.kind = .identifier)
      (sep : colon.kind = .colon) (values : Values final vs) : Property final (name :: colon :: vs)

/-- What stands between the braces of a rule. A property is followed by a semicolon or by the
closing brace. -/
inductive Body : List Token → Prop where
  | nil : Body []
  | semicolon {t : Token} {ts : List Token} (kind : t.kind = .semicolon) (rest : Body ts) :
      Body (t :: ts)
  | property {p ts : List Token} (property : Property False p)
      (followed : ∀ t ∈ ts.head?, t.kind = .semicolon) (rest : Body ts) : Body (p ++ ts)

/-- Parts of a selector after its name, with the number of parameters and that of classes and ids
among them. -/
inductive Parts : Nat → Nat → List Token → Prop where
  | nil : Parts 0 0 []
  | ofClass {parameters names : Nat} {dot name : Token} {ts : List Token} (kind : dot.kind = .dot)
      (named : name.kind = .identifier) (rest : Parts parameters names ts) :
      Parts parameters (names + 1) (dot :: name :: ts)
  | ofId {parameters names : Nat} {hash name : Token} {ts : List Token} (kind : hash.kind = .hash)
      (named : name.kind = .identifier) (rest : Parts parameters names ts) :
      Parts parameters (names + 1) (hash :: name :: ts)
  | ofParameter {parameters names : Nat} {t : Token} {ts : List Token}
      (kind : t.kind = .selectorParameter) (rest : Parts parameters names ts) :
      Parts (parameters + 1) names (t :: ts)

/-- A selector: perhaps a name, which is an identifier or a star, and parts in any order, with at
most one parameter among them, and at least a name, a class or an id. -/
inductive Selector : List Token → Prop where
  | named {name : Token} {parts : List Token} {parameters names : Nat}
      (kind : name.kind = .identifier ∨ name.kind = .symbol ∧ name.text = "*")
      (after : Parts parameters names parts) (once : parameters ≤ 1) : Selector (name :: parts)
  | unnamed {parts : List Token} {parameters names : Nat} (all : Parts parameters names parts)
      (once : parameters ≤ 1) (some : 0 < names) : Selector parts

/-- A rule: a selector, and its body between braces. -/
inductive Rule : List Token → Prop where
  | intro {selector body : List Token} {opening closing : Token} (selects : Selector selector)
      (opens : opening.kind = .openBrace) (inside : Body body)
      (closes : closing.kind = .closeBrace) :
      Rule (selector ++ opening :: (body ++ [closing]))

def IsImport (t : Token) : Prop :=
  t.kind = .directive ∧ t.text = "import"

/-- The tokens of a sheet. An import is ended by a semicolon or by the end of the sheet. -/
inductive Sheet : List Token → Prop where
  | nil : Sheet []
  | semicolon {t : Token} {ts : List Token} (kind : t.kind = .semicolon) (rest : Sheet ts) :
      Sheet (t :: ts)
  | importFile {start ending : Token} {v ts : List Token} (begins : IsImport start)
      (value : Value False v) (some : Valued v) (ends : ending.kind = .semicolon)
      (rest : Sheet ts) : Sheet (start :: (v ++ ending :: ts))
  | lastImport {start : Token} {v : List Token} (begins : IsImport start) (value : Value True v)
      (some : Valued v) : Sheet (start :: v)
  | rule {r ts : List Token} (first : Rule r) (rest : Sheet ts) : Sheet (r ++ ts)

/-- Statements of a sheet, each of which is ended in front of what follows. -/
inductive Items : List Token → Prop where
  | nil : Items []
  | semicolon {t : Token} {ts : List Token} (kind : t.kind = .semicolon) (rest : Items ts) :
      Items (t :: ts)
  | importFile {start ending : Token} {v ts : List Token} (begins : IsImport start)
      (value : Value False v) (some : Valued v) (ends : ending.kind = .semicolon)
      (rest : Items ts) : Items (start :: (v ++ ending :: ts))
  | rule {r ts : List Token} (first : Rule r) (rest : Items ts) : Items (r ++ ts)

end PackageSheet.Grammar
