import PackageSheet.Diagnostic.Basic

namespace PackageSheet

/-- A property of a rule, with its values in the order of their declarations and the place of
the first declaration. -/
structure Property where
  name : String
  values : List String
  location : Location
deriving DecidableEq

/-- A selector with its properties. The name is empty for selectors such as `#define`, and a
rule that no text holds is marked as synthesized. -/
structure Rule where
  name : String
  id : Option String := none
  «class» : Option String := none
  parameter : Option String := none
  properties : List Property := []
  location : Location := {}
  synthesized : Bool := false
deriving DecidableEq

/-- What a cascade says about a property: all its values in order, and the place that belongs
to them. -/
structure PropertyView where
  values : List String := []
  location : Option Location := none
deriving DecidableEq

namespace PropertyView

/-- The value that holds: the last one. -/
def value? (view : PropertyView) : Option String :=
  view.values.getLast?

def isEmpty (view : PropertyView) : Bool :=
  view.values.isEmpty

end PropertyView

namespace Rule

/-- An empty rule for a selector, made where no text has one. -/
def synthesize (name : String) (parameter : Option String) : Rule :=
  { name, parameter, synthesized := true }

/-- The selector of a rule as it is shown. -/
def selectorText (rule : Rule) : String :=
  let part (before after : String) : Option String → String
    | some text => before ++ text ++ after
    | none => ""
  rule.name ++ part "." "" rule.class ++ part "#" "" rule.id ++ part "[" "]" rule.parameter

/-- The parameter of a rule; without one it is the empty text. -/
def key (rule : Rule) : String :=
  rule.parameter.getD ""

/-- Whether a rule has the selector of a name and a parameter. No parameter is the same as an
empty one. -/
def isSelector (rule : Rule) (name : String) (parameter : Option String) : Bool :=
  rule.name == name && rule.key == parameter.getD ""

def isDefine (rule : Rule) : Bool :=
  rule.name == "define" || (rule.name == "" && rule.id == some "define")

def property? (rule : Rule) (name : String) : Option Property :=
  rule.properties.find? (·.name == name)

/-- What a rule by itself says about a property. -/
def view (rule : Rule) (name : String) : PropertyView :=
  match rule.property? name with
  | some p => ⟨p.values, some p.location⟩
  | none => {}

def has (rule : Rule) (name : String) : Bool :=
  !(rule.view name).isEmpty

/-- Put values at the end of a property; a new property takes the place of the declaration. -/
def addToProperties (name : String) (values : List String) (location : Location) :
    List Property → List Property
  | [] => [⟨name, values, location⟩]
  | p :: ps =>
    if p.name == name then { p with values := p.values ++ values } :: ps
    else p :: addToProperties name values location ps

def declare (rule : Rule) (name : String) (values : List String) (location : Location) : Rule :=
  { rule with properties := addToProperties name values location rule.properties }

end Rule

/-- Rules in the order in which they apply: for a single value the last one holds. -/
abbrev Cascade := List Rule

namespace Cascade

/-- What a cascade says about a property. The place is that of the last rule with the
property. -/
def view (cascade : Cascade) (name : String) : PropertyView :=
  cascade.foldl
    (fun view rule =>
      match rule.property? name with
      | some p => ⟨view.values ++ p.values, some p.location⟩
      | none => view)
    {}

def has (cascade : Cascade) (name : String) : Bool :=
  !(view cascade name).isEmpty

theorem mem_values_of_mem_view {cascade : Cascade} {name value : String}
    (h : value ∈ (cascade.view name).values) :
    value ∈ cascade.flatMap fun rule => rule.properties.flatMap (·.values) := by
  suffices ∀ (cascade : Cascade) (start : PropertyView),
      value ∈ (cascade.foldl
        (fun (view : PropertyView) rule => match rule.property? name with
          | some p => ⟨view.values ++ p.values, some p.location⟩
          | none => view) start).values →
        value ∈ start.values ∨
          value ∈ cascade.flatMap fun rule => rule.properties.flatMap (·.values) by
    simpa using this cascade {} h
  intro cascade
  induction cascade with
  | nil => exact fun start h => .inl h
  | cons rule rest ih =>
    intro start h
    rcases ih _ h with found | found
    · cases property : rule.property? name with
      | none => simp [property] at found; exact .inl found
      | some p =>
        simp only [property, List.mem_append] at found
        rcases found with found | found
        · exact .inl found
        · refine .inr (List.mem_flatMap.mpr ⟨rule, by simp, ?_⟩)
          exact List.mem_flatMap.mpr ⟨p, List.mem_of_find?_eq_some property, found⟩
    · exact .inr (by simp [List.flatMap_cons, found])

end Cascade

end PackageSheet
