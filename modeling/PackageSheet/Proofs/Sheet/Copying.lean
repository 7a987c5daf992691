import Mathlib.Data.List.Forall2
import PackageSheet.Proofs.Sheet.Growth
import PackageSheet.Proofs.Sheet.Placing
import PackageSheet.Storage.Disk

namespace PackageSheet

/-- A rule is the same as another one, but for its file. -/
def Rule.IsCopy (rule copy : Rule) : Prop :=
  copy = rule.inFile copy.location.file

/-- A rule is the same as another one, and the files of both are the same file of a disk. -/
structure Rule.IsCopyOn (disk : Disk) (rule copy : Rule) : Prop where
  isCopy : rule.IsCopy copy
  located : ∃ file other place content, rule.location.file = some file ∧
    copy.location.file = some other ∧ disk.locate file = .ok place ∧
    disk.locate other = .ok place ∧ disk.node? place = some (.file content)

namespace Rule

variable {rule copy : Rule}

private theorem values_view_inFile (file : Option Path) (rule : Rule) (name : String) :
    ((rule.inFile file).view name).values = (rule.view name).values := by
  have found : (rule.inFile file).property? name = (rule.property? name).map (·.inFile file) := by
    rw [property?, property?, inFile, List.find?_map]
    rfl
  rw [view, view, found]
  cases rule.property? name <;> rfl

theorem IsCopy.values_view (same : rule.IsCopy copy) (name : String) :
    (copy.view name).values = (rule.view name).values := by
  rw [show copy = _ from same, values_view_inFile]

theorem IsCopy.value?_view (same : rule.IsCopy copy) (name : String) :
    (copy.view name).value? = (rule.view name).value? := by
  rw [PropertyView.value?, PropertyView.value?, same.values_view]

end Rule

namespace Cascade

variable {cascade copies : Cascade}

private theorem value?_view_of_copies (same : List.Forall₂ Rule.IsCopy cascade copies) (name : String) :
    (view copies name).value? = (view cascade name).value? := by
  rw [PropertyView.value?, PropertyView.value?, values_view, values_view]
  congr 1
  induction same with
  | nil => rfl
  | cons first _ ih => rw [List.flatMap_cons, List.flatMap_cons, first.values_view, ih]

theorem filter_of_copies (same : List.Forall₂ Rule.IsCopy cascade copies) {p : Rule → Bool}
    (apart : ∀ file rule, p (rule.inFile file) = p rule) :
    List.Forall₂ Rule.IsCopy (cascade.filter p) (copies.filter p) := by
  refine List.rel_filter (fun rule copy own => ?_) same
  dsimp only
  rw [show copy = _ from own, apart]

end Cascade

theorem Sheet.parameters_of_copies {sheet other : Sheet}
    (same : List.Forall₂ Rule.IsCopy sheet.rules other.rules) (name : String) :
    other.parameters name = sheet.parameters name := by
  have named : List.Forall₂ Rule.IsCopy (sheet.named name) (other.named name) :=
    Cascade.filter_of_copies same fun _ _ => rfl
  have key {rule copy : Rule} (own : rule.IsCopy copy) : copy.key = rule.key := by
    rw [show copy = _ from own]
    rfl
  have keys : (other.named name).map Rule.key = (sheet.named name).map Rule.key := by
    generalize sheet.named name = rules, other.named name = copies at named
    induction named with
    | nil => rfl
    | cons first _ ih => rw [List.map_cons, List.map_cons, ih, key first]
  rw [parameters, parameters, keys]

namespace Scope

variable {scope : Scope} {sheet : Sheet}

private theorem resolve?_of_copies (same : List.Forall₂ Rule.IsCopy scope.sheet.rules sheet.rules) :
    ({ scope with sheet } : Scope).resolve? = scope.resolve? := by
  have part (p : Rule → Bool) (apart : ∀ file rule, p (rule.inFile file) = p rule) (name : String) :
      (Cascade.view (sheet.rules.filter p) name).value? =
        (Cascade.view (scope.sheet.rules.filter p) name).value? :=
    Cascade.value?_view_of_copies (Cascade.filter_of_copies same apart) name
  exact resolve?_congr (fun _ _ => part _ fun _ _ => rfl) (fun _ => part _ fun _ _ => rfl)
    (part _ fun _ _ => rfl)

/-- Copies of rules let references stand for the same. -/
theorem expand_of_copies (same : List.Forall₂ Rule.IsCopy scope.sheet.rules sheet.rules) :
    ({ scope with sheet } : Scope).expand = scope.expand := by
  funext text
  obtain ⟨chains, derivation⟩ := scope.exists_expands [] (Template.parts text.toList)
  exact (derivation.congr (resolve?_of_copies same)).eq.symm

end Scope

end PackageSheet
