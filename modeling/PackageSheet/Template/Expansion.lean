import PackageSheet.Diagnostic.Problem
import PackageSheet.Template.Basic
import PackageSheet.Template.Scope
import PackageSheet.Text.Fragment

/-!
Expanding references. The value of a reference is expanded in turn, while its name is active; a
reference to an active name, and one without a value, stay as they are written and are reported.
Expansion ends because the names are fragments of the text or of the finitely many values of the
scope, and none is active twice (`names_subset`, `trim_mem_names`).
-/

namespace PackageSheet

/-- An expanded text, and what was noticed on the way to it, in order. -/
structure Expansion where
  text : List Char := []
  problems : List Problem := []
deriving DecidableEq

namespace Expansion

def append (first second : Expansion) : Expansion :=
  ⟨first.text ++ second.text, first.problems ++ second.problems⟩

def string (expansion : Expansion) : String :=
  String.ofList expansion.text

def diagnostics (expansion : Expansion) (location : Option Location) : List Diagnostic :=
  expansion.problems.map (·.diagnose location)

end Expansion

namespace Scope

open Template

/-- The names that references in some parts, and in what they stand for, can have. -/
def names (scope : Scope) (parts : List Part) : List (List Char) :=
  (parts.filterMap Part.body? ++ scope.values.map String.toList).flatMap Text.fragments

theorem mem_names {scope : Scope} {parts : List Part} {name : List Char} :
    name ∈ scope.names parts ↔
      (∃ body, .reference body ∈ parts ∧ name <:+: body) ∨
        ∃ value ∈ scope.values, name <:+: value.toList := by
  simp only [names, List.mem_flatMap, List.mem_append, List.mem_filterMap, List.mem_map,
    Text.mem_fragments]
  constructor
  · rintro ⟨text, ⟨part, mem, body⟩ | ⟨value, mem, rfl⟩, inside⟩
    · cases part with
      | char => cases body
      | reference found => cases body; exact .inl ⟨_, mem, inside⟩
    · exact .inr ⟨value, mem, inside⟩
  · rintro (⟨body, mem, inside⟩ | ⟨value, mem, inside⟩)
    · exact ⟨body, .inl ⟨_, mem, rfl⟩, inside⟩
    · exact ⟨_, .inr ⟨value, mem, rfl⟩, inside⟩

theorem names_cons_subset (scope : Scope) (part : Part) (rest : List Part) :
    scope.names rest ⊆ scope.names (part :: rest) := by
  intro name mem
  rw [mem_names] at mem ⊢
  rcases mem with ⟨body, mem, inside⟩ | found
  · exact .inl ⟨body, List.mem_cons_of_mem _ mem, inside⟩
  · exact .inr found

/-- The name of a reference is one of the names. -/
theorem trim_mem_names (scope : Scope) (body : List Char) (rest : List Part) :
    Text.trim body ∈ scope.names (.reference body :: rest) :=
  mem_names.mpr (.inl ⟨body, List.mem_cons_self, Text.trim_isInfix body⟩)

/-- What a reference stands for brings no new names. -/
theorem names_subset {scope : Scope} {body : List Char} {value : String} (rest : List Part)
    (h : scope.resolve? body = some value) :
    scope.names (parts value.toList) ⊆ scope.names (.reference body :: rest) := by
  intro name mem
  rw [mem_names] at mem ⊢
  rcases mem with ⟨inner, mem, inside⟩ | found
  · have inside := inside.trans (body_isInfix mem)
    rcases holds_of_resolve h with held | own
    · exact .inr ⟨value, mem_values_of_holds held, inside⟩
    · exact .inl ⟨body, List.mem_cons_self, inside.trans own⟩
  · exact .inr found

/-- Expand the parts of a text while some names are active. -/
def expandParts (scope : Scope) (active : List (List Char)) (texts : List Part) : Expansion :=
  match texts with
  | [] => {}
  | .char c :: rest => Expansion.append ⟨[c], []⟩ (expandParts scope active rest)
  | .reference body :: rest =>
    let name := Text.trim body
    let found : Expansion :=
      if _new : name ∈ active then
        ⟨(Part.reference body).text, [.circularReference (String.ofList name)]⟩
      else
        match _value : scope.resolve? body with
        | some value => expandParts scope (name :: active) (parts value.toList)
        | none => ⟨(Part.reference body).text, [.unresolvedReference (String.ofList name)]⟩
    found.append (expandParts scope active rest)
termination_by (countOutside active (scope.names texts), texts.length)
decreasing_by
  · exact Prod.Lex.right' _ (countOutside_mono (scope.names_cons_subset ..)) (by simp)
  · exact .left _ _
      (countOutside_cons_lt (names_subset rest _value) (scope.trim_mem_names body rest) _new)
  · exact Prod.Lex.right' _ (countOutside_mono (scope.names_cons_subset ..)) (by simp)

def expand (scope : Scope) (text : String) : Expansion :=
  scope.expandParts [] (parts text.toList)

end Scope

end PackageSheet
