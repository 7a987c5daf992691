import PackageSheet.FileList.Entry
import PackageSheet.Sheet.Basic

namespace PackageSheet

/-- How far the work on a file list has come. -/
inductive Progress where
  | unvisited
  | inProgress
  | done (entries : List Entry)
deriving DecidableEq

def Progress.entries? : Progress → Option (List Entry)
  | .done entries => some entries
  | .unvisited | .inProgress => none

/-- How far the work on each declared list has come, in the order of the sheet. -/
abbrev Slots := List (String × Progress)

namespace Slots

def declare (names : List String) : Slots :=
  names.map (·, .unvisited)

/-- How far the work on the list of a name has come; `none` if it is not declared. -/
def progress? (slots : Slots) (name : String) : Option Progress :=
  (slots.find? (·.1 == name)).map (·.2)

def declares (slots : Slots) (name : String) : Bool :=
  (slots.progress? name).isSome

def entries? (slots : Slots) (name : String) : Option (List Entry) :=
  (slots.progress? name).bind Progress.entries?

def mark (slots : Slots) (name : String) (progress : Progress) : Slots :=
  slots.map fun slot => if slot.1 = name then (name, progress) else slot

theorem progress?_declare (names : List String) (name : String) :
    (declare names).progress? name = if name ∈ names then some .unvisited else none := by
  induction names with
  | nil => rfl
  | cons first names ih =>
    simp only [declare, progress?, List.map_cons, List.find?_cons, List.mem_cons] at ih ⊢
    by_cases same : first = name
    · simp [same]
    · simpa [beq_false_of_ne same, Ne.symm same] using ih

@[simp] theorem names_mark (slots : Slots) (name : String) (progress : Progress) :
    (slots.mark name progress).map (·.1) = slots.map (·.1) := by
  simp only [mark, List.map_map]
  apply List.map_congr_left
  intro slot _
  by_cases same : slot.1 = name <;> simp [same]

/-- Marking a slot sets its progress, if it is declared, and no other. -/
theorem progress?_mark (slots : Slots) (name : String) (progress : Progress) (other : String) :
    (slots.mark name progress).progress? other =
      if other = name then (slots.progress? name).map fun _ => progress
      else slots.progress? other := by
  induction slots with
  | nil => simp [mark, progress?]
  | cons slot slots ih =>
    simp only [mark, progress?, List.map_cons, List.find?_cons] at ih ⊢
    by_cases same : slot.1 = name
    · subst same
      by_cases sought : other = slot.1
      · simp [sought]
      · simpa [sought, Ne.symm sought, beq_false_of_ne (Ne.symm sought)] using ih
    · by_cases sought : slot.1 = other
      · subst sought
        simp [same]
      · simpa [same, beq_false_of_ne sought, beq_false_of_ne same] using ih

end Slots

end PackageSheet
