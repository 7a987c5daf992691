import PackageSheet.Bindings
import PackageSheet.Sheet.Basic
import PackageSheet.Text.Lowercase

/-!
What references stand for. A name is looked up in the sheet, in the answers about the package,
in the definitions of the sheet, in a table, and in the environment, in this order; the first
value found holds. All values come from finitely many places (`holds_of_resolve`,
`mem_values_of_holds`).
-/

namespace PackageSheet

/-- The places where the names of references are looked up. The names of the table are in lower
case. -/
structure Scope where
  sheet : Sheet
  table : Bindings := []
  environment : Answers := .none
  evaluator : Answers := .none

namespace Scope

/-- Put a value into the table; the case of the name does not count. -/
def set (scope : Scope) (name value : String) : Scope :=
  { scope with table := scope.table.set (Text.lowercase name) value }

/-- The name that stands for a file itself, below the directory of the package. -/
def fileItself : String := "DEFAULTLAMBDAVALUE"

/-- What `fileItself` stands for. -/
def fileItselfText : String := "$\x7bpackagedir\x7d\\$\x7beach.Path\x7d"

/-- The text before the first pair of question marks, and the one after it. -/
def splitDefault? : List Char → Option (List Char × List Char)
  | [] => none
  | '?' :: '?' :: cs => some ([], cs)
  | c :: cs => (splitDefault? cs).map fun (before, after) => (c :: before, after)

/-- The value of a property, by the name of a rule, perhaps its parameter, and the name of the
property, with dots between them. -/
def ofProperty? (scope : Scope) (name : List Char) : Option String :=
  match (name.splitOn '.').map String.ofList with
  | [rule, parameter, property] =>
    ((scope.sheet.selected rule (some parameter)).view property).value?
  | [rule, property] => ((scope.sheet.named rule).view property).value?
  | _ => none

/-- The answer about the package, which must not be empty. -/
def ofPackage? (scope : Scope) (name : List Char) : Option String :=
  match name with
  | 'p' :: 'a' :: 'c' :: 'k' :: 'a' :: 'g' :: 'e' :: '.' :: asked =>
    (scope.evaluator.get? (String.ofList asked)).filter (· != "")
  | _ => none

/-- The value of a name. -/
def lookup? (scope : Scope) (name : List Char) : Option String :=
  let text := String.ofList name
  (scope.ofProperty? name).or <|
    (scope.ofPackage? name).or <|
      (scope.sheet.defines.view text).value?.or <|
        (scope.table.get? (Text.lowercase text)).or (scope.environment.get? text)

/-- What a reference stands for: the value of its name, or the default after two question
marks. -/
def resolve? (scope : Scope) (body : List Char) : Option String :=
  let name := Text.trim body
  if name = fileItself.toList then some fileItselfText
  else
    match splitDefault? name with
    | none => if name = [] then none else scope.lookup? name
    | some (before, after) =>
      let default := some (String.ofList (Text.trim after))
      if Text.trim before = [] then default else (scope.lookup? (Text.trim before)).or default

/-- The texts that references can stand for, defaults apart: what the sheet, the table, the
environment and the evaluator hold, and the text for a file itself. -/
def Holds (scope : Scope) (value : String) : Prop :=
  value = fileItselfText ∨
    (∃ rule ∈ scope.sheet.rules, ∃ property ∈ rule.properties, value ∈ property.values) ∨
    (∃ name, (name, value) ∈ scope.table) ∨
    (∃ name, scope.environment.get? name = some value) ∨
    ∃ name, scope.evaluator.get? name = some value

def values (scope : Scope) : List String :=
  fileItselfText :: scope.sheet.rules.flatMap (fun rule => rule.properties.flatMap (·.values)) ++
    scope.table.map (·.2) ++ scope.environment.values ++ scope.evaluator.values

theorem mem_values_of_holds {scope : Scope} {value : String} (held : scope.Holds value) :
    value ∈ scope.values := by
  simp only [values, List.mem_append, List.mem_cons, List.mem_flatMap, List.mem_map]
  rcases held with rfl | ⟨rule, own, property, declared, mem⟩ | ⟨name, bound⟩ | ⟨name, answer⟩ |
    ⟨name, answer⟩
  · exact .inl (.inl (.inl (.inl rfl)))
  · exact .inl (.inl (.inl (.inr ⟨rule, own, property, declared, mem⟩)))
  · exact .inl (.inl (.inr ⟨(name, value), bound, rfl⟩))
  · exact .inl (.inr (scope.environment.mem_values _ _ answer))
  · exact .inr (scope.evaluator.mem_values _ _ answer)

private theorem splitDefault?_eq_some {cs before after : List Char}
    (h : splitDefault? cs = some (before, after)) : before ++ ['?', '?'] ++ after = cs := by
  fun_induction splitDefault? cs generalizing before after with
  | case1 => cases h
  | case2 cs => cases h; rfl
  | case3 c cs _ ih =>
    obtain ⟨⟨first, second⟩, found, same⟩ := Option.map_eq_some_iff.mp h
    cases same
    simp [← ih found]

theorem holds_of_view {scope : Scope} {cascade : Cascade} {name value : String}
    (part : cascade ⊆ scope.sheet.rules) (h : (cascade.view name).value? = some value) :
    scope.Holds value := by
  have mem := Cascade.mem_values_of_mem_view (List.mem_of_getLast? h)
  obtain ⟨rule, inPart, found⟩ := List.mem_flatMap.mp mem
  exact .inr (.inl ⟨rule, part inPart, List.mem_flatMap.mp found⟩)

private theorem holds_of_lookup {scope : Scope} {name : List Char} {value : String}
    (h : scope.lookup? name = some value) : scope.Holds value := by
  simp only [lookup?, Option.or_eq_some_iff] at h
  rcases h with h | ⟨-, h | ⟨-, h | ⟨-, h | ⟨-, h⟩⟩⟩⟩
  · unfold ofProperty? at h
    split at h
    · exact holds_of_view List.filter_sublist.subset h
    · exact holds_of_view List.filter_sublist.subset h
    · cases h
  · unfold ofPackage? at h
    split at h
    · exact .inr (.inr (.inr (.inr ⟨_, (Option.filter_eq_some_iff.mp h).1⟩)))
    · cases h
  · exact holds_of_view List.filter_sublist.subset h
  · obtain ⟨pair, found, rfl⟩ := Option.map_eq_some_iff.mp h
    exact .inr (.inr (.inl ⟨pair.1, List.mem_of_find?_eq_some found⟩))
  · exact .inr (.inr (.inr (.inl ⟨_, h⟩)))

/-- A reference stands for a text that the scope holds, or for a fragment of its own body. -/
theorem holds_of_resolve {scope : Scope} {body : List Char} {value : String}
    (h : scope.resolve? body = some value) : scope.Holds value ∨ value.toList <:+: body := by
  unfold resolve? at h
  dsimp only at h
  split at h
  · cases h
    exact .inl (.inl rfl)
  split at h
  · split at h
    · cases h
    · exact .inl (holds_of_lookup h)
  · rename_i before after split
    have inner : Text.trim after <:+: body := by
      have : after <:+: Text.trim body :=
        ⟨before ++ ['?', '?'], [], by simpa using splitDefault?_eq_some split⟩
      exact ((Text.trim_isInfix after).trans this).trans (Text.trim_isInfix body)
    split at h
    · cases h
      exact .inr (by simpa using inner)
    · rcases Option.or_eq_some_iff.mp h with h | ⟨-, h⟩
      · exact .inl (holds_of_lookup h)
      · cases h
        exact .inr (by simpa using inner)

end Scope

end PackageSheet
