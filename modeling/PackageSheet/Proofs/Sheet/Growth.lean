import Mathlib.Data.List.Induction
import PackageSheet.Catalog
import PackageSheet.Proofs.Template.Nesting

namespace PackageSheet

namespace Cascade

theorem property?_of_blank {rule : Rule} (blank : rule.properties = []) (name : String) :
    rule.property? name = none := by
  simp [Rule.property?, blank]

theorem view_of_blank {rule : Rule} (blank : rule.properties = []) (name : String) :
    rule.view name = {} := by
  rw [Rule.view, property?_of_blank blank]

private theorem view_append_blanks (cascade : Cascade) {blanks : List Rule}
    (blank : ∀ rule ∈ blanks, rule.properties = []) (name : String) :
    view (cascade ++ blanks) name = view cascade name := by
  unfold view
  rw [List.foldl_append]
  induction blanks with
  | nil => rfl
  | cons rule blanks ih =>
    obtain ⟨first, others⟩ := List.forall_mem_cons.mp blank
    rw [List.foldl_cons, property?_of_blank first]
    exact ih others

theorem values_view (cascade : Cascade) (name : String) :
    (view cascade name).values = cascade.flatMap fun rule => (rule.view name).values := by
  induction cascade using List.reverseRecOn with
  | nil => rfl
  | append_singleton front rule ih =>
    rw [List.flatMap_append, ← ih, List.flatMap_singleton, view, view, List.foldl_append,
      List.foldl_cons, List.foldl_nil, Rule.view]
    cases rule.property? name with
    | none => simp
    | some property => rfl

end Cascade

/-- A sheet that has more rules at its end, without properties and with names other than one that
is kept apart. -/
def Sheet.Grows (apart : String) (before after : Sheet) : Prop :=
  ∃ blanks, after.rules = before.rules ++ blanks ∧
    ∀ rule ∈ blanks, rule.properties = [] ∧ rule.name ≠ apart

namespace Sheet.Grows

variable {apart : String} {before middle after : Sheet}

theorem refl (sheet : Sheet) : sheet.Grows apart sheet :=
  ⟨[], by simp, nofun⟩

theorem trans (first : before.Grows apart middle) (second : middle.Grows apart after) :
    before.Grows apart after := by
  obtain ⟨blanks, early, blank⟩ := first
  obtain ⟨others, late, also⟩ := second
  refine ⟨blanks ++ others, ?_, ?_⟩
  · rw [late, early, List.append_assoc]
  · intro rule member
    rcases List.mem_append.mp member with old | new
    · exact blank rule old
    · exact also rule new

theorem isPrefix (grown : before.Grows apart after) : before.rules <+: after.rules := by
  obtain ⟨blanks, split, -⟩ := grown
  exact ⟨blanks, split.symm⟩

private theorem push {rule : Rule} (blank : rule.properties = []) (different : rule.name ≠ apart) :
    before.Grows apart (before.push rule) :=
  ⟨[rule], rfl, by simpa using ⟨blank, different⟩⟩

theorem view_filter (grown : before.Grows apart after) (p : Rule → Bool) (name : String) :
    Cascade.view (after.rules.filter p) name = Cascade.view (before.rules.filter p) name := by
  obtain ⟨blanks, split, blank⟩ := grown
  rw [split, List.filter_append]
  refine Cascade.view_append_blanks _ (fun rule member => ?_) _
  exact (blank rule (List.mem_filter.mp member).1).1

theorem selected (grown : before.Grows apart after) (parameter : Option String) :
    after.selected apart parameter = before.selected apart parameter := by
  obtain ⟨blanks, split, blank⟩ := grown
  have noneAdded : blanks.filter (·.isSelector apart parameter) = [] := by
    apply List.filter_eq_nil_iff.mpr
    intro rule member
    simp [Rule.isSelector, (blank rule member).2]
  simp [Sheet.selected, split, List.filter_append, noneAdded]

end Sheet.Grows

namespace Catalog

variable {α : Type} {apart : String}

theorem grows_consult (catalog : Catalog α) (different : catalog.ruleName ≠ apart) (sheet : Sheet)
    (key : String) : sheet.Grows apart (catalog.consult sheet key).sheet := by
  unfold consult
  split
  · exact .refl sheet
  · split
    · exact .refl sheet
    · exact .push rfl different

theorem ruleName_consult (catalog : Catalog α) (sheet : Sheet) (key : String) :
    (catalog.consult sheet key).catalog.ruleName = catalog.ruleName := by
  unfold consult
  split
  · rfl
  · split <;> rfl

theorem grows_consultAll (catalog : Catalog α) (different : catalog.ruleName ≠ apart)
    (sheet : Sheet) (keys : List String) :
    sheet.Grows apart (catalog.consultAll sheet keys).2.2 := by
  induction keys generalizing catalog sheet with
  | nil => exact .refl sheet
  | cons key keys ih =>
    have first := catalog.grows_consult different sheet key
    refine first.trans (ih _ ?_ _)
    rwa [ruleName_consult]

theorem ruleName_consultAll (catalog : Catalog α) (sheet : Sheet) (keys : List String) :
    (catalog.consultAll sheet keys).2.1.ruleName = catalog.ruleName := by
  induction keys generalizing catalog sheet with
  | nil => rfl
  | cons key keys ih => exact (ih _ _).trans (catalog.ruleName_consult sheet key)

end Catalog

namespace Scope

open Template

/-- A derivation holds in every scope in which references stand for the same. -/
theorem Expands.congr {first second : Scope} {active : List (List Char)} {texts : List Part}
    {expansion : Expansion} {chains : List (List (List Char))}
    (same : second.resolve? = first.resolve?)
    (derivation : Expands first active texts expansion chains) :
    Expands second active texts expansion chains := by
  induction derivation with
  | nil => exact .nil
  | char rest ih => exact .char ih
  | active member rest ih => exact .active member ih
  | unresolved new missing rest ih => exact .unresolved new (same ▸ missing) ih
  | resolved new found within rest inside after =>
    exact .resolved new (same ▸ found) inside after

variable {apart : String} {scope : Scope} {sheet : Sheet}

/-- References stand for the same in another sheet, if its parts say the same. -/
theorem resolve?_congr
    (selected : ∀ rule parameter property,
      ((sheet.selected rule parameter).view property).value? =
        ((scope.sheet.selected rule parameter).view property).value?)
    (named : ∀ rule property, ((sheet.named rule).view property).value? =
      ((scope.sheet.named rule).view property).value?)
    (defines : ∀ name, (sheet.defines.view name).value? = (scope.sheet.defines.view name).value?) :
    ({ scope with sheet } : Scope).resolve? = scope.resolve? := by
  have properties (name : List Char) :
      ({ scope with sheet } : Scope).ofProperty? name = scope.ofProperty? name := by
    unfold ofProperty?
    split
    · exact selected _ _ _
    · exact named _ _
    · rfl
  have values (name : List Char) :
      ({ scope with sheet } : Scope).lookup? name = scope.lookup? name := by
    unfold lookup?
    rw [properties]
    simp only [defines]
    rfl
  funext body
  unfold resolve?
  simp only [values]

/-- References stand for the same after the sheet has grown. -/
theorem resolve?_eq (grown : scope.sheet.Grows apart sheet) :
    ({ scope with sheet } : Scope).resolve? = scope.resolve? :=
  resolve?_congr (fun _ _ _ => congrArg PropertyView.value? (grown.view_filter _ _))
    (fun _ _ => congrArg PropertyView.value? (grown.view_filter _ _))
    (fun _ => congrArg PropertyView.value? (grown.view_filter _ _))

theorem expand_eq (grown : scope.sheet.Grows apart sheet) :
    ({ scope with sheet } : Scope).expand = scope.expand := by
  funext text
  obtain ⟨chains, derivation⟩ := scope.exists_expands [] (parts text.toList)
  exact (derivation.congr (resolve?_eq grown)).eq.symm

end Scope

end PackageSheet
