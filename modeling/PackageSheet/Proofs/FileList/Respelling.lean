import Mathlib.Data.List.Forall2
import PackageSheet.Proofs.FileList.Origin
import PackageSheet.Proofs.FileList.Visit

/-!
File lists of two sites at which the files have the same steps below two spellings of a directory.
What the lists do with entries never looks at the steps in front of these, so lists that begin with
respelled entries are resolved to respelled entries, whatever lists they ask for
(`Slots.Respelled.visit`).
-/

namespace PackageSheet

/-- Two spellings of a directory, as the steps in front of those of the paths below it. -/
structure Respelling where
  one : List Component
  other : List Component

variable {respelling : Respelling}

/-- Two paths have the same steps behind those of the directory, the last of them a name. -/
def Path.Respelled (respelling : Respelling) (source other : Path) : Prop :=
  ∃ steps name, source.components = respelling.one ++ steps ++ [.name name] ∧
    other.components = respelling.other ++ steps ++ [.name name]

/-- Two files land at the same place and are respelled. -/
structure Entry.Respelled (respelling : Respelling) (entry other : Entry) : Prop where
  source : entry.source.Respelled respelling other.source
  destination : other.destination = entry.destination

/-- The work on two lists has come equally far. -/
inductive Progress.Respelled (respelling : Respelling) : Progress → Progress → Prop where
  | unvisited : Respelled respelling .unvisited .unvisited
  | inProgress : Respelled respelling .inProgress .inProgress
  | done {entries others : List Entry}
      (each : List.Forall₂ (Entry.Respelled respelling) entries others) :
      Respelled respelling (.done entries) (.done others)

/-- The same lists are declared, and the work on some of them has come equally far. -/
structure Slots.Respelled (respelling : Respelling) (lists : String → Prop) (declared : List String)
    (slots others : Slots) : Prop where
  names : slots.map (·.1) = declared
  names_other : others.map (·.1) = declared
  progress : ∀ name, lists name →
    Option.Rel (Progress.Respelled respelling) (slots.progress? name) (others.progress? name)

/-- Whether a token takes a file out of a list, as a pattern. -/
def Glob.Exclusion.takes (token : String) (source : Path) : Bool :=
  match compile token with
  | .ok exclusion => exclusion.excludes source
  | .error _ => false

/-- Two recipes ask for the same, perhaps below other roots. -/
structure Recipe.IsCounterpart (recipe counterpart : Recipe) : Prop where
  includes : counterpart.includes.map (·.value) = recipe.includes.map (·.value)
  excludes : counterpart.excludes.map (·.value) = recipe.excludes.map (·.value)
  policy : counterpart.policy.value = recipe.policy.value
  destination : counterpart.destination.value = recipe.destination.value

/-- Two recipes ask for the same, by patterns for which two sites have respelled files. -/
structure Recipe.Respelled (respelling : Respelling) (declared : List String) (site other : Site)
    (recipe counterpart : Recipe) : Prop extends recipe.IsCounterpart counterpart where
  found : ∀ token ∈ recipe.includes.map (·.value), token ∉ declared →
    List.Forall₂ (Entry.Respelled respelling) (site.found recipe token).value
      (other.found counterpart token).value
  taken : ∀ token ∈ recipe.excludes.map (·.value), token ∉ declared → ∀ source renamed,
    source.Respelled respelling renamed →
      Glob.Exclusion.takes token renamed = Glob.Exclusion.takes token source

/-- Two sites have as many recipes for each list, and respelled ones for some lists, which name no
others. -/
structure Site.Respelled (respelling : Respelling) (lists : String → Prop) (declared : List String)
    (site other : Site) : Prop where
  counts : ∀ name, (other.recipes name).length = (site.recipes name).length
  recipes : ∀ name recipe counterpart, lists name → site.recipes name = [recipe] →
    other.recipes name = [counterpart] →
      recipe.Respelled respelling declared site other counterpart
  closed : ∀ name recipe, lists name → site.recipes name = [recipe] →
    ∀ token ∈ recipe.references, lists token

private theorem Path.Respelled.same_eq {source renamed one two : Path}
    (first : source.Respelled respelling renamed) (second : one.Respelled respelling two) :
    renamed.same two = source.same one := by
  obtain ⟨steps, name, components, others⟩ := first
  obtain ⟨behind, last, own, further⟩ := second
  rw [same, same, components, others, own, further, Bool.eq_iff_iff]
  simp only [beq_iff_eq, List.append_assoc, List.append_cancel_left_eq]

namespace Entry

variable {entries others more further : List Entry}

theorem covers_eq (each : List.Forall₂ (Respelled respelling) entries others) {source renamed : Path}
    (path : source.Respelled respelling renamed) : covers others renamed = covers entries source := by
  induction each with
  | nil => rfl
  | cons first _ ih =>
    rw [covers, List.any_cons, first.source.same_eq path]
    exact congrArg _ ih

private theorem forall₂_gather (each : List.Forall₂ (Respelled respelling) entries others)
    (new : List.Forall₂ (Respelled respelling) more further) :
    List.Forall₂ (Respelled respelling) (gather entries more) (gather others further) := by
  induction new generalizing entries others with
  | nil => exact each
  | cons first _ ih =>
    rw [gather, gather, covers_eq each first.source]
    split
    · exact ih each
    · exact ih (List.rel_append each (.cons first .nil))

private theorem forall₂_without (each : List.Forall₂ (Respelled respelling) entries others)
    (barred : List.Forall₂ (Respelled respelling) more further) :
    List.Forall₂ (Respelled respelling) (without entries more) (without others further) :=
  List.rel_filter (fun _ _ own => by dsimp only; rw [covers_eq barred own.source]) each

theorem destinations_eq (each : List.Forall₂ (Respelled respelling) entries others) :
    others.map (·.destination) = entries.map (·.destination) := by
  induction each with
  | nil => rfl
  | cons first _ ih => rw [List.map_cons, List.map_cons, first.destination, ih]

private theorem forall₂_trim (policy : TrimPolicy)
    (each : List.Forall₂ (Respelled respelling) entries others) :
    List.Forall₂ (Respelled respelling) (trim policy entries) (trim policy others) := by
  rw [trim, trim, destinations_eq each]
  generalize Destination.trim policy (entries.map (·.destination)) = destinations
  induction each generalizing destinations with
  | nil => exact .nil
  | cons first _ ih =>
    cases destinations with
    | nil => exact .nil
    | cons destination destinations => exact .cons ⟨first.source, rfl⟩ (ih destinations)

private theorem forall₂_place (raw : String)
    (each : List.Forall₂ (Respelled respelling) entries others) :
    List.Forall₂ (Respelled respelling) (place raw entries) (place raw others) :=
  List.rel_map (fun _ _ own => ⟨own.source, congrArg (Destination.place raw) own.destination⟩) each

end Entry

variable {lists : String → Prop} {declared : List String}

private theorem Slots.names_declare (names : List String) : (declare names).map (·.1) = names := by
  rw [declare, List.map_map]
  exact List.map_id names

namespace Slots.Respelled

variable {slots others : Slots} {name : String}

/-- Lists that are declared by the same names, and not visited, are respelled. -/
theorem declare (respelling : Respelling) (lists : String → Prop) (names : List String) :
    Respelled respelling lists names (declare names) (declare names) where
  names := names_declare names
  names_other := names_declare names
  progress name _ := by
    rw [progress?_declare]
    split
    · exact .some .unvisited
    · exact .none

private theorem mark (alike : Respelled respelling lists declared slots others) {own : String}
    (named : own = name) {progress counterpart : Progress}
    (same : progress.Respelled respelling counterpart) :
    Respelled respelling lists declared (slots.mark name progress) (others.mark own counterpart) where
  names := (names_mark _ _ _).trans alike.names
  names_other := (names_mark _ _ _).trans alike.names_other
  progress := by
    intro other asked
    subst named
    rw [progress?_mark, progress?_mark]
    split
    · rename_i here
      subst here
      match slots.progress? other, others.progress? other, alike.progress other asked with
      | _, _, .none => exact .none
      | _, _, .some _ => exact .some same
    · exact alike.progress other asked

theorem declares_eq (alike : Respelled respelling lists declared slots others) (name : String) :
    others.declares name = slots.declares name := by
  rw [Bool.eq_iff_iff, declares_iff, declares_iff, alike.names, alike.names_other]

theorem entries? (alike : Respelled respelling lists declared slots others) (asked : lists name) :
    Option.Rel (List.Forall₂ (Entry.Respelled respelling)) (slots.entries? name)
      (others.entries? name) := by
  unfold Slots.entries?
  match slots.progress? name, others.progress? name, alike.progress name asked with
  | _, _, .none => exact .none
  | _, _, .some .unvisited => exact .none
  | _, _, .some .inProgress => exact .none
  | _, _, .some (.done each) => exact .some each

theorem getD_entries? (alike : Respelled respelling lists declared slots others)
    (asked : lists name) :
    List.Forall₂ (Entry.Respelled respelling) ((slots.entries? name).getD [])
      ((others.entries? name).getD []) := by
  match slots.entries? name, others.entries? name, alike.entries? asked with
  | _, _, .none => exact .nil
  | _, _, .some each => exact each

end Slots.Respelled

namespace Site

variable {site other : Site} {recipe counterpart : Recipe} {request answer : Request}

/-- Two outcomes of the work on tokens: respelled entries, and slots that have come equally far. -/
def OutcomeRespelled (respelling : Respelling) (lists : String → Prop) (declared : List String)
    (outcome result : List Entry × Assembly) : Prop :=
  List.Forall₂ (Entry.Respelled respelling) outcome.1 result.1 ∧
    Slots.Respelled respelling lists declared outcome.2.slots result.2.slots

/-- Two ways to work on a token do the same for some tokens. -/
def ActsAlike (respelling : Respelling) (lists : String → Prop) (declared : List String)
    (act counteract : String → List Entry → Assembly → List Entry × Assembly)
    (tokens : List String) : Prop :=
  ∀ token ∈ tokens, ∀ outcome result, OutcomeRespelled respelling lists declared outcome result →
    OutcomeRespelled respelling lists declared (act token outcome.1 outcome.2)
      (counteract token result.1 result.2)

private theorem outcomeRespelled_eachToken
    {act counteract : String → List Entry → Assembly → List Entry × Assembly}
    {tokens counterparts : List (Reported String)}
    (acts : ActsAlike respelling lists declared act counteract (tokens.map (·.value)))
    (values : counterparts.map (·.value) = tokens.map (·.value))
    {entries others : List Entry} {assembly second : Assembly}
    (alike : OutcomeRespelled respelling lists declared (entries, assembly) (others, second)) :
    OutcomeRespelled respelling lists declared (eachToken act tokens entries assembly)
      (eachToken counteract counterparts others second) := by
  induction tokens generalizing counterparts entries others assembly second with
  | nil =>
    obtain rfl := List.map_eq_nil_iff.mp values
    exact alike
  | cons token tokens ih =>
    obtain ⟨first, rest, rfl, own, values⟩ := List.map_eq_cons_iff.mp values
    obtain ⟨acted, acts⟩ := List.forall_mem_cons.mp acts
    rw [eachToken, eachToken, own]
    exact ih acts values
      (acted (entries, assembly.reportAll token.reports) (others, second.reportAll first.reports) alike)

/-- Two ways to request lists do the same. -/
def RequestsAlike (respelling : Respelling) (lists : String → Prop) (declared : List String)
    (request answer : Request) : Prop :=
  ∀ name, lists name → ∀ assembly second : Assembly,
    Slots.Respelled respelling lists declared assembly.slots second.slots →
      Slots.Respelled respelling lists declared (request name assembly).slots
        (answer name second).slots

private theorem actsAlike_including (asks : RequestsAlike respelling lists declared request answer)
    (own : recipe.Respelled respelling declared site other counterpart)
    (closed : ∀ token ∈ recipe.references, lists token) :
    ActsAlike respelling lists declared
      (fun token entries assembly =>
        (Entry.gather entries (site.including request recipe token assembly).1,
          (site.including request recipe token assembly).2))
      (fun token entries assembly =>
        (Entry.gather entries (other.including answer counterpart token assembly).1,
          (other.including answer counterpart token assembly).2))
      (recipe.includes.map (·.value)) := by
  rintro token member ⟨entries, assembly⟩ ⟨others, second⟩ ⟨each, slots⟩
  have asked : lists token := closed token (by
    rw [Recipe.references, List.map_append]
    exact List.mem_append_left _ member)
  dsimp only [OutcomeRespelled, including] at each slots ⊢
  rw [slots.declares_eq token]
  split
  · have after := asks token asked assembly second slots
    exact ⟨Entry.forall₂_gather each (after.getD_entries? asked), after⟩
  · rename_i pattern
    have undeclared : token ∉ declared := by
      rwa [← slots.names, ← Slots.declares_iff]
    exact ⟨Entry.forall₂_gather each (own.found token member undeclared), slots⟩

private theorem value_kept_eq_filter (recipe : Recipe) (token : String) (entries : List Entry) :
    (kept recipe token entries).value =
      entries.filter fun entry => !Glob.Exclusion.takes token entry.source := by
  unfold kept Glob.Exclusion.takes
  cases Glob.Exclusion.compile token with
  | error fault => simp
  | ok exclusion => rfl

private theorem actsAlike_excluding (asks : RequestsAlike respelling lists declared request answer)
    (own : recipe.Respelled respelling declared site other counterpart)
    (closed : ∀ token ∈ recipe.references, lists token) :
    ActsAlike respelling lists declared (excluding request recipe) (excluding answer counterpart)
      (recipe.excludes.map (·.value)) := by
  rintro token member ⟨entries, assembly⟩ ⟨others, second⟩ ⟨each, slots⟩
  have asked : lists token := closed token (by
    rw [Recipe.references, List.map_append]
    exact List.mem_append_right _ member)
  dsimp only [OutcomeRespelled, excluding] at each slots ⊢
  rw [slots.declares_eq token]
  split
  · have after := asks token asked assembly second slots
    exact ⟨Entry.forall₂_without each (after.getD_entries? asked), after⟩
  · rename_i pattern
    have undeclared : token ∉ declared := by
      rwa [← slots.names, ← Slots.declares_iff]
    refine ⟨?_, slots⟩
    dsimp only
    rw [value_kept_eq_filter, value_kept_eq_filter]
    exact List.rel_filter (fun _ _ pair => by
      dsimp only
      rw [own.taken token member undeclared _ _ pair.source]) each

end Site

theorem Making.respelled_entries (making counterpart : Making)
    (asks : Site.RequestsAlike respelling lists declared making.request counterpart.request)
    (own : making.recipe.Respelled respelling declared making.site counterpart.site
      counterpart.recipe)
    (named : counterpart.recipe.name = making.recipe.name)
    (closed : ∀ token ∈ making.recipe.references, lists token)
    (slots : Slots.Respelled respelling lists declared making.start.slots counterpart.start.slots) :
    Slots.Respelled respelling lists declared
      ((making.excluded making.recipe.excludes).2.slots.mark making.recipe.name
        (.done making.entries))
      ((counterpart.excluded counterpart.recipe.excludes).2.slots.mark counterpart.recipe.name
        (.done counterpart.entries)) := by
  have start : Site.OutcomeRespelled respelling lists declared ([], making.begun)
      ([], counterpart.begun) :=
    ⟨.nil, slots.mark named .inProgress⟩
  have included : Site.OutcomeRespelled respelling lists declared
      (making.included making.recipe.includes) (counterpart.included counterpart.recipe.includes) := by
    rw [included, included, Site.includeAll_eq_eachToken, Site.includeAll_eq_eachToken]
    exact Site.outcomeRespelled_eachToken (Site.actsAlike_including asks own closed) own.includes start
  have excluded : Site.OutcomeRespelled respelling lists declared
      (making.excluded making.recipe.excludes) (counterpart.excluded counterpart.recipe.excludes) := by
    rw [excluded, excluded, Site.excludeAll_eq_eachToken, Site.excludeAll_eq_eachToken]
    exact Site.outcomeRespelled_eachToken (Site.actsAlike_excluding asks own closed) own.excludes
      included
  obtain ⟨each, after⟩ := excluded
  refine after.mark named (.done ?_)
  rw [entries, entries, own.policy, own.destination]
  exact Entry.forall₂_place _ (Entry.forall₂_trim _ each)

namespace Site

variable {site other : Site}

/-- A request changes the slots of respelled sites alike, whatever it asks for in turn. -/
theorem Respelled.visit (alike : Respelled respelling lists declared site other) (budget : Nat) :
    RequestsAlike respelling lists declared (site.visit budget) (other.visit budget) := by
  induction budget using Nat.strong_induction_on with
  | _ budget ih =>
    intro name asked assembly second slots
    have progress := slots.progress name asked
    have counts := alike.counts name
    unfold Site.visit
    generalize assembly.slots.progress? name = come, second.slots.progress? name = reached at progress ⊢
    cases progress with
    | none => exact slots
    | some far =>
      cases far with
      | done each => exact slots
      | inProgress => exact slots
      | unvisited =>
        rcases rules : site.recipes name with _ | ⟨recipe, _ | ⟨further, recipes⟩⟩
        · have none : other.recipes name = [] := by
            rwa [rules, List.length_nil, List.length_eq_zero_iff] at counts
          rw [none]
          exact slots
        · obtain ⟨counterpart, single⟩ :=
            List.length_eq_one_iff.mp (counts.trans (congrArg List.length rules))
          rw [single]
          cases budget with
          | zero => exact slots
          | succ budget =>
            have named : counterpart.name = recipe.name := by
              rw [name_of_mem_recipes (single ▸ List.mem_singleton_self counterpart),
                name_of_mem_recipes (rules ▸ List.mem_singleton_self recipe)]
            let making : Making := ⟨site, budget, recipe, assembly⟩
            let work : Making := ⟨other, budget, counterpart, second⟩
            have same := alike.recipes name recipe counterpart asked rules single
            exact Making.respelled_entries making work
              (ih budget budget.lt_succ_self) same named (alike.closed name recipe asked rules) slots
        · rcases several : other.recipes name with _ | ⟨counterpart, _ | ⟨another, counterparts⟩⟩
          · simp [rules, several] at counts
          · simp [rules, several] at counts
          · exact slots

theorem Respelled.resolve (alike : Respelled respelling lists declared site other) {name : String}
    (asked : lists name) {assembly second : Assembly}
    (slots : Slots.Respelled respelling lists declared assembly.slots second.slots) :
    Option.Rel (List.Forall₂ (Entry.Respelled respelling)) (site.resolve name assembly).1
        (other.resolve name second).1 ∧
      Slots.Respelled respelling lists declared (site.resolve name assembly).2.slots
        (other.resolve name second).2.slots := by
  have size : second.slots.length = assembly.slots.length := by
    rw [← List.length_map (·.1), slots.names_other, ← slots.names, List.length_map]
  have after := alike.visit assembly.slots.length name asked assembly second slots
  unfold Site.resolve
  rw [size]
  exact ⟨after.entries? asked, after⟩

end Site

end PackageSheet
