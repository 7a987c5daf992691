import Mathlib.Logic.Relation
import PackageSheet.FileList.Assembly
import PackageSheet.Proofs.FileList.Reference

/-!
The work on one file list as the requests see it (`Making`). A visit begins at most one work of its
own, which makes further requests, and so on (`Site.Performs`); what begins and ends of works keep is
kept by a visit (`Site.keeps_visit`), whatever circles there are.
-/

namespace PackageSheet

private theorem Site.includeAll_append (site : Site) (request : Request) (recipe : Recipe)
    (tokens others : List (Reported String)) (entries : List Entry) (assembly : Assembly) :
    site.includeAll request recipe (tokens ++ others) entries assembly =
      site.includeAll request recipe others
        (site.includeAll request recipe tokens entries assembly).1
        (site.includeAll request recipe tokens entries assembly).2 := by
  induction tokens generalizing entries assembly with
  | nil => rfl
  | cons token tokens ih => exact ih _ _

theorem Site.excludeAll_append (request : Request) (recipe : Recipe)
    (tokens others : List (Reported String)) (entries : List Entry) (assembly : Assembly) :
    excludeAll request recipe (tokens ++ others) entries assembly =
      excludeAll request recipe others
        (excludeAll request recipe tokens entries assembly).1
        (excludeAll request recipe tokens entries assembly).2 := by
  induction tokens generalizing entries assembly with
  | nil => rfl
  | cons token tokens ih => exact ih _ _

private theorem Site.slots_including (site : Site) (request : Request) (recipe : Recipe) (token : String)
    (assembly : Assembly) :
    (site.including request recipe token assembly).2.slots =
      if assembly.slots.declares token = true then (request token assembly).slots
      else assembly.slots := by
  unfold including
  split <;> rfl

private theorem Site.slots_excluding (request : Request) (recipe : Recipe) (token : String)
    (entries : List Entry) (assembly : Assembly) :
    (excluding request recipe token entries assembly).2.slots =
      if assembly.slots.declares token = true then (request token assembly).slots
      else assembly.slots := by
  unfold excluding
  split <;> rfl

/-- The work on the list of a recipe: where it is done, the budget for the requests it makes, and
the assembly in which it begins. -/
structure Making where
  site : Site
  budget : Nat
  recipe : Recipe
  start : Assembly

namespace Making

def request (making : Making) : Site.Request :=
  making.site.visit making.budget

def begun (making : Making) : Assembly :=
  ((making.start.mark making.recipe.name .inProgress).note "resolving file list").reportAll
    making.recipe.root.reports

def included (making : Making) (tokens : List (Reported String)) : List Entry × Assembly :=
  making.site.includeAll making.request making.recipe tokens [] making.begun

/-- The entries and the assembly after all include tokens and some exclude tokens. -/
def excluded (making : Making) (tokens : List (Reported String)) : List Entry × Assembly :=
  let all := making.included making.recipe.includes
  Site.excludeAll making.request making.recipe tokens all.1 all.2

def entries (making : Making) : List Entry :=
  Entry.place making.recipe.destination.value
    (Entry.trim making.recipe.policy.value (making.excluded making.recipe.excludes).1)

/-- The work requests the list of a name at an assembly, for one of its tokens. -/
inductive Asks (making : Making) : String → Assembly → Prop where
  | toInclude {before after : List (Reported String)} {token : Reported String}
      (split : making.recipe.includes = before ++ token :: after)
      (declared : (making.included before).2.slots.declares token.value = true) :
      Asks making token.value ((making.included before).2.reportAll token.reports)
  | toExclude {before after : List (Reported String)} {token : Reported String}
      (split : making.recipe.excludes = before ++ token :: after)
      (declared : (making.excluded before).2.slots.declares token.value = true) :
      Asks making token.value ((making.excluded before).2.reportAll token.reports)

/-- A request for the list of a name begins this work: the list was not visited and has one
recipe. -/
structure Begins (making : Making) (site : Site) (budget : Nat) (name : String)
    (assembly : Assembly) : Prop where
  site_eq : making.site = site
  budget_eq : budget = making.budget + 1
  start_eq : making.start = assembly
  unvisited : assembly.slots.progress? name = some .unvisited
  recipes : site.recipes name = [making.recipe]

/-- One of the requests of a work begins another. -/
def Nests (outer inner : Making) : Prop :=
  ∃ name assembly, outer.Asks name assembly ∧ inner.Begins outer.site outer.budget name assembly

variable (making : Making) (before : List (Reported String)) (token : Reported String)

theorem included_concat :
    making.included (before ++ [token]) =
      let (more, after) := making.site.including making.request making.recipe token.value
        ((making.included before).2.reportAll token.reports)
      (Entry.gather (making.included before).1 more, after) := by
  simp only [included, Site.includeAll_append, Site.includeAll]

theorem excluded_concat :
    making.excluded (before ++ [token]) =
      Site.excluding making.request making.recipe token.value (making.excluded before).1
        ((making.excluded before).2.reportAll token.reports) := by
  simp only [excluded, Site.excludeAll_append, Site.excludeAll]

theorem slots_assemble :
    (making.site.assemble making.request making.recipe making.start).slots =
      (making.excluded making.recipe.excludes).2.slots.mark making.recipe.name
        (.done making.entries) :=
  rfl

end Making

/-- Something that holds of slots holds around every token of a work. -/
structure Making.Throughout (making : Making) (holds : Slots → Prop) : Prop where
  included : ∀ tokens, tokens <+: making.recipe.includes → holds (making.included tokens).2.slots
  excluded : ∀ tokens, tokens <+: making.recipe.excludes → holds (making.excluded tokens).2.slots

theorem Making.Throughout.imp {making : Making} {holds kept : Slots → Prop}
    (throughout : making.Throughout holds) (weaker : ∀ slots, holds slots → kept slots) :
    making.Throughout kept :=
  ⟨fun tokens front => weaker _ (throughout.included tokens front),
    fun tokens front => weaker _ (throughout.excluded tokens front)⟩

/-- What holds where a work begins, and is kept by its requests, holds throughout. -/
theorem Making.throughout {making : Making} {holds : Slots → Prop} (start : holds making.begun.slots)
    (keeps : ∀ name assembly, making.Asks name assembly → holds assembly.slots →
      holds (making.request name assembly).slots) : making.Throughout holds := by
  have included (tokens : List (Reported String)) (front : tokens <+: making.recipe.includes) :
      holds (making.included tokens).2.slots := by
    induction tokens using List.reverseRecOn with
    | nil => exact start
    | append_singleton before token ih =>
      have held := ih ((List.prefix_append before [token]).trans front)
      obtain ⟨after, split⟩ := front
      rw [included_concat]
      dsimp only
      rw [Site.slots_including]
      split
      · rename_i declared
        have parted : making.recipe.includes = before ++ token :: after := by simp [← split]
        exact keeps _ _ (.toInclude parted declared) held
      · exact held
  refine ⟨included, fun tokens front => ?_⟩
  induction tokens using List.reverseRecOn with
  | nil => exact included _ (List.prefix_refl _)
  | append_singleton before token ih =>
    have held := ih ((List.prefix_append before [token]).trans front)
    obtain ⟨after, split⟩ := front
    rw [excluded_concat, Site.slots_excluding]
    split
    · rename_i declared
      have parted : making.recipe.excludes = before ++ token :: after := by simp [← split]
      exact keeps _ _ (.toExclude parted declared) held
    · exact held

namespace Site

/-- The works that a request for the list of a name performs: the one that it begins, and those
that are begun within it. -/
def Performs (site : Site) (budget : Nat) (name : String) (assembly : Assembly)
    (making : Making) : Prop :=
  ∃ first : Making, first.Begins site budget name assembly ∧
    Relation.ReflTransGen Making.Nests first making

variable {site : Site} {budget : Nat} {name : String} {assembly : Assembly} {making inner : Making}
  {holds : Slots → Prop}

theorem Performs.site_eq (performs : site.Performs budget name assembly making) :
    making.site = site := by
  obtain ⟨first, begins, nested⟩ := performs
  induction nested with
  | refl => exact begins.site_eq
  | tail _ nests ih =>
    obtain ⟨_, _, _, begun⟩ := nests
    exact begun.site_eq.trans ih

theorem Performs.recipes (performs : site.Performs budget name assembly making) :
    site.recipes making.recipe.name = [making.recipe] := by
  have own {making : Making} {site : Site} {budget : Nat} {name : String} {assembly : Assembly}
      (begins : making.Begins site budget name assembly) :
      making.site.recipes making.recipe.name = [making.recipe] := by
    have member : making.recipe ∈ site.recipes name := by simp [begins.recipes]
    rw [begins.site_eq, name_of_mem_recipes member, begins.recipes]
  rw [← performs.site_eq]
  obtain ⟨first, begins, nested⟩ := performs
  rcases nested.cases_tail with same | ⟨outer, -, _, _, -, begun⟩
  · exact same ▸ own begins
  · exact own begun

/-- What is performed for a request of a work is performed for the request that began it. -/
theorem Performs.of_asks {token : String} {middle : Assembly}
    (begins : making.Begins site budget name assembly) (asks : making.Asks token middle)
    (performs : making.site.Performs making.budget token middle inner) :
    site.Performs budget name assembly inner := by
  obtain ⟨first, begun, nested⟩ := performs
  exact ⟨making, begins, .head ⟨token, middle, asks, begun⟩ nested⟩

/-- What holds of slots, and is kept where a work begins and where it ends, is kept by a visit. The
induction is on the budget, of which each work leaves less to its requests. -/
theorem keeps_visit
    (begins : ∀ slots name, holds slots → slots.progress? name = some .unvisited →
      holds (slots.mark name .inProgress))
    (ends : ∀ making, site.Performs budget name assembly making → making.Throughout holds →
      holds ((making.excluded making.recipe.excludes).2.slots.mark making.recipe.name
        (.done making.entries)))
    (held : holds assembly.slots) : holds (site.visit budget name assembly).slots := by
  induction budget generalizing name assembly with
  | zero =>
    rw [visit]
    split
    · exact held
    · exact held
    · exact held
    · split <;> exact held
  | succ budget ih =>
    rw [visit]
    split
    · exact held
    · exact held
    · exact held
    · rename_i new
      split
      · exact held
      · rename_i recipe rules
        let making : Making := ⟨site, budget, recipe, assembly⟩
        have begun : making.Begins site (budget + 1) name assembly := ⟨rfl, rfl, rfl, new, rules⟩
        have own : recipe ∈ site.recipes name := by simp [rules]
        have start : holds making.begun.slots :=
          begins _ _ held (by rwa [name_of_mem_recipes own])
        have throughout : making.Throughout holds := making.throughout start
          fun token middle asks kept => ih
            (fun inner performs => ends inner (.of_asks begun asks performs)) kept
        exact ends making ⟨making, begun, .refl⟩ throughout
      · exact held

theorem names_visit (site : Site) (budget : Nat) (name : String) (assembly : Assembly) :
    (site.visit budget name assembly).slots.map (·.1) = assembly.slots.map (·.1) := by
  let holds (slots : Slots) : Prop := slots.map (·.1) = assembly.slots.map (·.1)
  have kept : holds (site.visit budget name assembly).slots := by
    refine keeps_visit ?_ ?_ rfl
    · exact fun slots name held _ => (Slots.names_mark slots name .inProgress).trans held
    · exact fun _ _ throughout => (Slots.names_mark _ _ _).trans
        (throughout.excluded _ (List.prefix_refl _))
  exact kept

end Site

theorem Making.throughout_names (making : Making) :
    making.Throughout fun slots => slots.map (·.1) = making.start.slots.map (·.1) :=
  making.throughout (Slots.names_mark _ _ _) fun name assembly _ held =>
    (Site.names_visit making.site making.budget name assembly).trans held

end PackageSheet
