import PackageSheet.Diagnostic.Journal
import PackageSheet.FileList.Recipe
import PackageSheet.Proofs.Template.Nesting

namespace PackageSheet

/-- Whether conditions with a code are faults of a list, which are reported once. -/
def Code.isListFault : Code → Bool
  | .unknownFileList | .circularReference | .ambiguousDefinition => true
  | _ => false

def JournalEntry.isPlain : JournalEntry → Bool
  | .diagnostic d => !d.code.isListFault
  | .note _ => true

/-- No fault of a list is among some reports. -/
def ArePlain (reports : List Diagnostic) : Prop :=
  ∀ d ∈ reports, d.code.isListFault = false

theorem arePlain_nil : ArePlain [] :=
  nofun

theorem arePlain_append {first second : List Diagnostic} :
    ArePlain (first ++ second) ↔ ArePlain first ∧ ArePlain second := by
  simp only [ArePlain, List.mem_append, or_imp, forall_and]

theorem arePlain_diagnose (problem : Problem) (location : Option Location)
    (plain : problem.code.isListFault = false) : ArePlain [problem.diagnose location] := by
  intro d reported
  rw [List.mem_singleton.mp reported]
  exact plain

namespace Scope

private theorem Expands.problems {scope : Scope} {active : List (List Char)} {texts : List Template.Part}
    {expansion : Expansion} {chains : List (List (List Char))}
    (derivation : Expands scope active texts expansion chains) :
    ∀ problem ∈ expansion.problems,
      ∃ name, problem = .unresolvedReference name ∨ problem = .circularReference name := by
  induction derivation with
  | nil => nofun
  | char rest ih => exact ih
  | active member rest ih =>
    intro problem noticed
    rcases List.mem_cons.mp noticed with rfl | later
    · exact ⟨_, .inr rfl⟩
    · exact ih problem later
  | unresolved new missing rest ih =>
    intro problem noticed
    rcases List.mem_cons.mp noticed with rfl | later
    · exact ⟨_, .inl rfl⟩
    · exact ih problem later
  | resolved new found within rest inside after =>
    intro problem noticed
    rcases List.mem_append.mp noticed with early | later
    · exact inside problem early
    · exact after problem later

end Scope

namespace Site

variable (site : Site)

theorem arePlain_expand (text : String) (location : Option Location) :
    ArePlain (site.expand text location).reports := by
  intro d reported
  obtain ⟨problem, noticed, rfl⟩ := List.mem_map.mp reported
  obtain ⟨chains, derivation⟩ := site.scope.exists_expands [] (Template.parts text.toList)
  obtain ⟨name, rfl | rfl⟩ := derivation.problems problem noticed
  · rfl
  · rfl

private theorem arePlain_root (rule : Rule) : ArePlain (site.root rule).reports := by
  unfold root
  split
  · exact arePlain_nil
  · exact arePlain_expand _ _ _

private theorem arePlain_policy (rule : Rule) : ArePlain (site.policy rule).reports := by
  unfold policy
  dsimp only
  split
  · exact arePlain_nil
  split
  · exact arePlain_expand _ _ _
  · exact arePlain_append.mpr ⟨arePlain_expand _ _ _, arePlain_diagnose _ _ rfl⟩

private theorem arePlain_destination (rule : Rule) : ArePlain (site.destination rule).reports := by
  unfold destination
  split
  · exact arePlain_nil
  · exact arePlain_expand _ _ _

private theorem arePlain_tokens (rule : Rule) (property : String) :
    ∀ token ∈ site.tokens rule property, ArePlain token.reports := by
  intro token member
  obtain ⟨raw, -, rfl⟩ := List.mem_map.mp member
  exact arePlain_expand _ _ _

theorem arePlain_found (recipe : Recipe) (token : String) :
    ArePlain (site.found recipe token).reports := by
  unfold found
  dsimp only
  split
  · exact arePlain_diagnose _ _ rfl
  · exact arePlain_diagnose _ _ rfl
  · exact arePlain_nil

theorem arePlain_kept (recipe : Recipe) (token : String) (entries : List Entry) :
    ArePlain (kept recipe token entries).reports := by
  unfold kept
  split
  · exact arePlain_diagnose _ _ rfl
  · exact arePlain_nil

end Site

/-- What reading a rule reports: no fault of a list. -/
structure Recipe.IsPlain (recipe : Recipe) : Prop where
  root : ArePlain recipe.root.reports
  includes : ∀ token ∈ recipe.includes, ArePlain token.reports
  excludes : ∀ token ∈ recipe.excludes, ArePlain token.reports
  policy : ArePlain recipe.policy.reports
  destination : ArePlain recipe.destination.reports

theorem Site.isPlain_of_mem_recipes {site : Site} {name : String} {recipe : Recipe}
    (own : recipe ∈ site.recipes name) : recipe.IsPlain := by
  obtain ⟨rule, -, rfl⟩ := List.mem_map.mp own
  exact ⟨arePlain_root site rule, arePlain_tokens site rule _, arePlain_tokens site rule _,
    arePlain_policy site rule, arePlain_destination site rule⟩

end PackageSheet
