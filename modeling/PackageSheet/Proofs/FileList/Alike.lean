import PackageSheet.Proofs.FileList.Tour
import PackageSheet.Proofs.Sheet.Growth

namespace PackageSheet

namespace Site

/-- Two sites have the same files and the same recipes. -/
structure Alike (first second : Site) : Prop where
  storage : second.storage = first.storage
  recipes : second.recipes = first.recipes

def withSheet (site : Site) (sheet : Sheet) : Site :=
  { site with scope := { site.scope with sheet } }

variable {site first second third : Site}

theorem Alike.symm (alike : Alike first second) : Alike second first :=
  ⟨alike.storage.symm, alike.recipes.symm⟩

theorem Alike.trans (early : Alike first second) (late : Alike second third) :
    Alike first third :=
  ⟨late.storage.trans early.storage, late.recipes.trans early.recipes⟩

theorem expand_of_grows {apart : String} {sheet : Sheet}
    (grown : site.scope.sheet.Grows apart sheet) : (site.withSheet sheet).expand = site.expand := by
  funext text location
  unfold expand withSheet
  simp only [Scope.expand_eq grown]

/-- A sheet that has grown asks the same of every file list. -/
theorem alike_of_grows {sheet : Sheet} (grown : site.scope.sheet.Grows listRule sheet) :
    Alike site (site.withSheet sheet) := by
  refine ⟨rfl, funext fun name => ?_⟩
  have asked (rule : Rule) : (site.withSheet sheet).recipe rule = site.recipe rule := by
    unfold recipe root policy destination tokens
    rw [expand_of_grows grown]
    rfl
  have rules : (site.withSheet sheet).scope.sheet.selected listRule (some name) =
      site.scope.sheet.selected listRule (some name) := grown.selected (some name)
  unfold recipes
  rw [rules]
  exact List.map_congr_left fun rule _ => asked rule

theorem Alike.only?_eq (alike : Alike first second) : second.only? = first.only? := by
  funext name
  unfold only?
  rw [alike.recipes]

theorem Alike.refers_eq (alike : Alike first second) : second.Refers = first.Refers := by
  funext name other
  unfold Refers
  rw [alike.only?_eq]

private theorem Alike.content_eq (alike : Alike first second) : second.content = first.content := by
  have contributed : second.contributed = first.contributed := by
    unfold contributed
    rw [alike.recipes, alike.storage]
  have bars : second.bars = first.bars := by
    unfold bars
    rw [alike.recipes]
  unfold content
  rw [contributed, bars]

private theorem Alike.includeAll_eq (alike : Alike first second) (request : Request) (recipe : Recipe)
    (tokens : List (Reported String)) (entries : List Entry) (assembly : Assembly) :
    second.includeAll request recipe tokens entries assembly =
      first.includeAll request recipe tokens entries assembly := by
  have including : second.including = first.including := by
    unfold including found
    rw [alike.storage]
  induction tokens generalizing entries assembly with
  | nil => rfl
  | cons token tokens ih =>
    rw [includeAll, includeAll, including]
    exact ih _ _

theorem Alike.visit_eq (alike : Alike first second) (budget : Nat) :
    second.visit budget = first.visit budget := by
  induction budget using Nat.strong_induction_on with
  | _ budget ih =>
    funext name assembly
    unfold visit
    rw [alike.recipes]
    cases budget with
    | zero => rfl
    | succ budget =>
      have assemble : second.assemble (second.visit budget) =
          first.assemble (first.visit budget) := by
        funext recipe assembly
        unfold assemble
        rw [ih budget budget.lt_succ_self]
        simp only [alike.includeAll_eq]
      simp only [assemble]

theorem Alike.resolve_eq (alike : Alike first second) : second.resolve = first.resolve := by
  unfold resolve
  simp only [alike.visit_eq]

end Site

namespace Tour

variable {first second : Site} {root name : String} {before after : Tour}

theorem MayAsk.of_alike {path : List String} (alike : Site.Alike first second)
    (asked : MayAsk first root path name) : MayAsk second root path name := by
  cases path with
  | nil => exact asked
  | cons top path => exact (alike.refers_eq ▸ asked : second.Refers top name)

/-- Alike sites have the same steps. -/
theorem Step.of_alike (alike : Site.Alike first second) (step : Step first root before after) :
    Step second root before after := by
  cases step with
  | write entries plain => exact .write entries plain
  | undefined absent => exact .undefined (alike.recipes ▸ absent)
  | ambiguous several => exact .ambiguous (alike.recipes ▸ several)
  | circular edge busy => exact .circular (alike.refers_eq ▸ edge) busy
  | enter new unique asked => exact .enter new (alike.only?_eq ▸ unique) (asked.of_alike alike)
  | leave found settled =>
    rw [← alike.content_eq]
    exact .leave (alike.only?_eq ▸ found) (alike.refers_eq ▸ settled)

theorem Runs.of_alike (alike : Site.Alike first second) (runs : Runs first before after) :
    Runs second before after :=
  Relation.ReflTransGen.mono (fun _ _ ⟨root, step⟩ => ⟨root, step.of_alike alike⟩) _ _ runs

/-- Between requests, the slots agree with every sheet that has as many rules for each list. -/
theorem Valid.of_counts {assembly : Assembly} (valid : Valid first ⟨[], assembly⟩)
    (same : ∀ name, (second.recipes name).length = (first.recipes name).length) :
    Valid second ⟨[], assembly⟩ where
  declared name := by
    rw [valid.declared name, ← List.length_pos_iff, ← List.length_pos_iff, same name]
  busy := valid.busy
  nodup := valid.nodup
  begun name progress known begun := by
    have unique := Site.isSome_only?_iff.mp (valid.begun name progress known begun)
    rwa [Site.isSome_only?_iff, same name]
  linked := .nil

end Tour

end PackageSheet
