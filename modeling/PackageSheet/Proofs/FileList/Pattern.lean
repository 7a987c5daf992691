import PackageSheet.Proofs.FileList.Origin
import PackageSheet.Proofs.Storage.Undoing

namespace PackageSheet

namespace Site

variable {site : Site} {name : String} {assembly : Assembly} {recipe : Recipe}

/-- Resolving a list that was not visited and has one recipe is one work. -/
theorem resolve_eq (unvisited : assembly.slots.progress? name = some .unvisited)
    (rules : site.recipes name = [recipe]) :
    ∃ making : Making, making.site = site ∧ making.recipe = recipe ∧ making.start = assembly ∧
      (site.resolve name assembly).1 = some making.entries := by
  have member : recipe ∈ site.recipes name := by simp [rules]
  have own : recipe.name = name := name_of_mem_recipes member
  have declared : name ∈ assembly.slots.map (·.1) := by
    rw [← Slots.declares_iff, Slots.declares, unvisited]
    rfl
  obtain ⟨budget, steps⟩ : ∃ budget, assembly.slots.length = budget + 1 := by
    refine Nat.exists_eq_succ_of_ne_zero fun none => ?_
    rw [List.length_eq_zero_iff.mp none] at declared
    cases declared
  let making : Making := ⟨site, budget, recipe, assembly⟩
  refine ⟨making, rfl, rfl, rfl, ?_⟩
  have visited : site.visit assembly.slots.length name assembly =
      site.assemble making.request recipe assembly := by
    rw [steps, visit, unvisited, rules]
    rfl
  have slots : (site.visit assembly.slots.length name assembly).slots =
      (making.excluded recipe.excludes).2.slots.mark name (.done making.entries) := by
    rw [visited, ← own]
    exact making.slots_assemble
  have still : (making.excluded recipe.excludes).2.slots.declares name = true := by
    rw [Slots.declares_iff, making.throughout_names.excluded _ (List.prefix_refl _)]
    exact declared
  obtain ⟨old, known⟩ := Option.isSome_iff_exists.mp still
  have done : (site.visit assembly.slots.length name assembly).slots.progress? name =
      some (.done making.entries) := by
    rw [slots, Slots.progress?_mark, if_pos rfl, known]
    rfl
  rw [resolve, Slots.entries?, done]
  rfl

end Site

namespace Making

variable {making : Making} {tokens : List (Reported String)}

/-- Some tokens are patterns: none of them is the name of a list. -/
def ArePatterns (making : Making) (tokens : List (Reported String)) : Prop :=
  ∀ token ∈ tokens, making.start.slots.declares token.value = false

/-- A work whose include tokens are all patterns includes what is found for them. -/
theorem included_eq_gather (front : tokens <+: making.recipe.includes)
    (patterns : making.ArePatterns tokens) :
    (making.included tokens).1 = Entry.gather [] (tokens.flatMap fun token =>
      (making.site.found making.recipe token.value).value) := by
  induction tokens using List.reverseRecOn with
  | nil => rfl
  | append_singleton before token ih =>
    obtain ⟨earlier, own⟩ := List.forall_mem_append.mp patterns
    have frontBefore := (List.prefix_append before [token]).trans front
    have pattern : ¬ (making.included before).2.slots.declares token.value = true := by
      rw [Slots.declares_iff, making.throughout_names.included before frontBefore,
        ← Slots.declares_eq_false_iff]
      exact own token (List.mem_singleton_self token)
    rw [included_concat, List.flatMap_append, Entry.gather_append, ← ih frontBefore earlier]
    dsimp only
    rw [Site.including, Assembly.slots_reportAll, if_neg pattern, List.flatMap_singleton]

/-- A work leaves nothing if its include tokens are all patterns whose files an exclude token takes
out. -/
theorem entries_eq_nil (patterns : making.ArePatterns making.recipe.includes)
    (undone : ∀ token ∈ making.recipe.includes,
      ∃ other ∈ making.recipe.excludes, other.value = token.value ∧
        making.site.storage.Undoes making.recipe.root.value token.value) :
    making.entries = [] := by
  rw [List.eq_nil_iff_forall_not_mem]
  intro entry member
  obtain ⟨old, left, same⟩ := exists_excluded member
  have included := (making.excluded_sublist _).subset left
  rw [included_eq_gather (List.prefix_refl _) patterns] at included
  obtain ⟨token, listed, found⟩ := List.mem_flatMap.mp
    ((Entry.mem_gather included).resolve_left List.not_mem_nil)
  obtain ⟨other, barred, value, undoes⟩ := undone token listed
  unfold Site.found at found
  dsimp only at found
  split at found
  · cases found
  · cases found
  · rename_i files _ glob
    obtain ⟨path, own, rfl⟩ := List.mem_map.mp found
    obtain ⟨exclusion, compiled, excluded⟩ := undoes files glob
    have kept := making.excludes_eq_false barred (value ▸ patterns token listed) (value ▸ compiled)
      entry member
    rw [← same] at kept
    have taken : exclusion.excludes path = true := excluded path own
    rw [Entry.below, taken] at kept
    cases kept

end Making

end PackageSheet
