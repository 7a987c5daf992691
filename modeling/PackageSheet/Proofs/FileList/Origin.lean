import PackageSheet.Proofs.Destination.Placement
import PackageSheet.Proofs.FileList.Distinct
import PackageSheet.Proofs.FileList.Making
import PackageSheet.Proofs.FileList.Tour

namespace PackageSheet

namespace Entry

private theorem exists_trim (policy : TrimPolicy) (entries : List Entry) :
    ∃ change : Path → Path,
      trim policy entries =
        entries.map (fun entry => { entry with destination := change entry.destination }) ∧
      ((∀ entry ∈ entries, entry.destination.IsNamed) → ∀ entry ∈ entries,
        (change entry.destination).IsNamed ∧
          (change entry.destination).fileName? = entry.destination.fileName?) := by
  obtain ⟨change, trimmed, kept⟩ := Destination.exists_trim policy (entries.map (·.destination))
  refine ⟨change, ?_, ?_⟩
  · rw [trim, trimmed, List.map_map, List.zipWith_map_right, List.zipWith_self]
    rfl
  · intro named entry member
    exact kept (List.forall_mem_map.mpr named) _ (List.mem_map_of_mem member)

end Entry

namespace Slots

theorem declares_iff {slots : Slots} {name : String} :
    slots.declares name = true ↔ name ∈ slots.map (·.1) := by
  simp [declares, progress?, Option.isSome_map, List.find?_isSome]

theorem declares_eq_false_iff {slots : Slots} {name : String} :
    slots.declares name = false ↔ name ∉ slots.map (·.1) := by
  rw [← declares_iff, Bool.not_eq_true]

/-- Something holds of the entries of every list that is done. -/
def AllDone (good : String → List Entry → Prop) (slots : Slots) : Prop :=
  ∀ name found, slots.progress? name = some (.done found) → good name found

variable {good : String → List Entry → Prop} {slots : Slots} {name : String}

theorem AllDone.begin (held : slots.AllDone good) : (slots.mark name .inProgress).AllDone good := by
  intro other found known
  rw [progress?_mark] at known
  split at known
  · obtain ⟨_, -, marked⟩ := Option.map_eq_some_iff.mp known
    cases marked
  · exact held other found known

theorem AllDone.finish {entries : List Entry} (held : slots.AllDone good)
    (own : good name entries) : (slots.mark name (.done entries)).AllDone good := by
  intro other found known
  rw [progress?_mark] at known
  split at known
  · rename_i same
    obtain ⟨_, -, marked⟩ := Option.map_eq_some_iff.mp known
    cases marked
    exact same ▸ own
  · exact held other found known

private theorem AllDone.entries (held : slots.AllDone good) {found : List Entry}
    (known : slots.entries? name = some found) : good name found := by
  obtain ⟨progress, there, ended⟩ := Option.bind_eq_some_iff.mp known
  cases progress with
  | unvisited | inProgress => cases ended
  | done entries =>
    cases ended
    exact held name found there

end Slots

namespace Site

private theorem mem_including {site : Site} {request : Request} {recipe : Recipe} {token : String}
    {assembly : Assembly} {entry : Entry}
    (member : entry ∈ (site.including request recipe token assembly).1) :
    (∃ found, (site.including request recipe token assembly).2.slots.entries? token = some found ∧
      entry ∈ found) ∨
    assembly.slots.declares token = false ∧ entry ∈ (site.found recipe token).value := by
  unfold including at member ⊢
  split at member
  · rename_i declared
    rw [if_pos declared]
    dsimp only at member ⊢
    cases known : (request token assembly).slots.entries? token with
    | none => simp [known] at member
    | some found =>
      rw [known] at member
      exact .inl ⟨found, rfl, member⟩
  · rename_i undeclared
    exact .inr ⟨Bool.eq_false_of_not_eq_true undeclared, member⟩

private theorem excluding_sublist (request : Request) (recipe : Recipe) (token : String)
    (entries : List Entry) (assembly : Assembly) :
    (excluding request recipe token entries assembly).1.Sublist entries := by
  unfold excluding Entry.without kept
  dsimp only
  split
  · exact List.filter_sublist
  · split
    · exact .refl _
    · exact List.filter_sublist

theorem excludeAll_sublist (request : Request) (recipe : Recipe) (tokens : List (Reported String))
    (entries : List Entry) (assembly : Assembly) :
    (excludeAll request recipe tokens entries assembly).1.Sublist entries := by
  induction tokens generalizing entries assembly with
  | nil => exact .refl _
  | cons token tokens ih => exact (ih _ _).trans (excluding_sublist _ _ _ _ _)

end Site

namespace Making

/-- Where a file of a list comes from, by works that were done, with the root below which it was
found: a token of the list stood for it, or named a list that it comes from. -/
inductive Origin (done : Making → Prop) : String → Path → Path → Prop where
  | found {making : Making} {token : Reported String} {files : List Path} {source : Path}
      (known : done making) (member : token ∈ making.recipe.includes)
      (pattern : making.start.slots.declares token.value = false)
      (glob : making.site.storage.glob making.recipe.root.value token.value = .ok files)
      (found : source ∈ files) :
      Origin done making.recipe.name making.recipe.root.value source
  | passed {making : Making} {token : Reported String} {root source : Path}
      (known : done making) (member : token ∈ making.recipe.includes)
      (inner : Origin done token.value root source) :
      Origin done making.recipe.name root source

end Making

/-- An entry of the list of a name fits: its destination has only names for components, and ends in
the name of its file, unless that is the root below which it was found. -/
structure Entry.Fits (done : Making → Prop) (name : String) (entry : Entry) : Prop where
  named : entry.destination.IsNamed
  origin : ∃ root, Making.Origin done name root entry.source ∧
    ∀ file, entry.source.fileName? = some file → entry.source.same root = false →
      entry.destination.fileName? = some file

private theorem Entry.Fits.passed {done : Making → Prop} {making : Making} {token : Reported String}
    {entry : Entry} (fits : entry.Fits done token.value) (known : done making)
    (member : token ∈ making.recipe.includes) : entry.Fits done making.recipe.name := by
  obtain ⟨named, root, origin, last⟩ := fits
  exact ⟨named, root, .passed known member origin, last⟩

namespace Making

variable {making : Making} {done : Making → Prop} {names : List String}

private theorem excluded_append_sublist (making : Making) (before after : List (Reported String)) :
    (making.excluded (before ++ after)).1.Sublist (making.excluded before).1 := by
  rw [excluded, Site.excludeAll_append]
  exact Site.excludeAll_sublist _ _ _ _ _

theorem excluded_sublist (making : Making) (tokens : List (Reported String)) :
    (making.excluded tokens).1.Sublist (making.included making.recipe.includes).1 :=
  Site.excludeAll_sublist _ _ _ _ _

/-- The slots are for some names, and what is done fits. -/
def Sound (done : Making → Prop) (names : List String) (slots : Slots) : Prop :=
  slots.map (·.1) = names ∧ slots.AllDone fun name found => ∀ entry ∈ found, entry.Fits done name

/-- The names of the slots are those that the work began with. -/
theorem names_start (throughout : making.Throughout (Sound done names)) :
    making.start.slots.map (·.1) = names := by
  have begun : making.begun.slots.map (·.1) = names := (throughout.included [] List.nil_prefix).1
  exact (Slots.names_mark _ _ _).symm.trans begun

private theorem fits_found (known : done making) {token : Reported String}
    (member : token ∈ making.recipe.includes)
    (pattern : making.start.slots.declares token.value = false) {entry : Entry}
    (found : entry ∈ (making.site.found making.recipe token.value).value) :
    entry.Fits done making.recipe.name := by
  unfold Site.found at found
  dsimp only at found
  split at found
  · cases found
  · cases found
  · rename_i files glob
    obtain ⟨source, listed, rfl⟩ := List.mem_map.mp found
    unfold Entry.below
    constructor <;> dsimp only
    · exact Destination.isNamed_relative source making.recipe.root.value
    · refine ⟨making.recipe.root.value, .found known member pattern glob listed, ?_⟩
      intro file own apart
      exact Destination.fileName?_relative own apart

private theorem fits_included (known : done making) (throughout : making.Throughout (Sound done names))
    (tokens : List (Reported String)) (front : tokens <+: making.recipe.includes) :
    ∀ entry ∈ (making.included tokens).1, entry.Fits done making.recipe.name := by
  induction tokens using List.reverseRecOn with
  | nil => nofun
  | append_singleton before token ih =>
    intro entry inside
    have earlier := (List.prefix_append before [token]).trans front
    have member : token ∈ making.recipe.includes :=
      front.subset (List.mem_append_right _ (List.mem_singleton_self token))
    have sound := throughout.included _ front
    rw [included_concat] at inside sound
    dsimp only at inside sound
    rcases Entry.mem_gather inside with old | new
    · exact ih earlier entry old
    · rcases Site.mem_including new with ⟨found, ended, listed⟩ | ⟨pattern, found⟩
      · exact (sound.2.entries ended entry listed).passed known member
      · refine fits_found known member ?_ found
        rw [Slots.declares_eq_false_iff] at pattern ⊢
        rwa [names_start throughout, ← (throughout.included before earlier).1]

/-- Where a work ends, the entries that are left got their destinations changed, each into one that
ends as before and is below the prefix. -/
theorem exists_entries (making : Making) :
    ∃ change : Path → Path,
      making.entries = (making.excluded making.recipe.excludes).1.map
        (fun entry => { entry with destination := change entry.destination }) ∧
      ((∀ entry ∈ (making.excluded making.recipe.excludes).1, entry.destination.IsNamed) →
        ∀ entry ∈ (making.excluded making.recipe.excludes).1,
          (change entry.destination).IsNamed ∧
          (Path.mk (Destination.normalize making.recipe.destination.value)).components <+:
            (change entry.destination).components ∧
          ∀ file, entry.destination.fileName? = some file →
            (change entry.destination).fileName? = some file) := by
  let raw := making.recipe.destination.value
  obtain ⟨change, trimmed, kept⟩ := Entry.exists_trim making.recipe.policy.value
    (making.excluded making.recipe.excludes).1
  refine ⟨fun path => Destination.place raw (change path), ?_, ?_⟩
  · rw [entries, trimmed, Entry.place, List.map_map]
    rfl
  · intro named entry member
    obtain ⟨still, last⟩ := kept named entry member
    refine ⟨Destination.isNamed_place raw still, ?_, ?_⟩
    · rw [Destination.components_place raw still]
      exact List.prefix_append _ _
    · intro file ends
      exact Destination.fileName?_place raw still (last.trans ends)

/-- Everything that a work leaves fits, and has a destination below the prefix of its list. -/
theorem fits_entries (known : done making) (throughout : making.Throughout (Sound done names)) :
    ∀ entry ∈ making.entries, entry.Fits done making.recipe.name ∧
      (Path.mk (Destination.normalize making.recipe.destination.value)).components <+:
        entry.destination.components := by
  obtain ⟨change, whole, kept⟩ := making.exists_entries
  have fits (entry : Entry) (left : entry ∈ (making.excluded making.recipe.excludes).1) :
      entry.Fits done making.recipe.name :=
    fits_included known throughout _ (List.prefix_refl _) entry
      ((making.excluded_sublist _).subset left)
  rw [whole]
  intro entry member
  obtain ⟨old, left, rfl⟩ := List.mem_map.mp member
  obtain ⟨named, below, last⟩ := kept (fun entry left => (fits entry left).named) old left
  obtain ⟨root, origin, ends⟩ := (fits old left).origin
  exact ⟨⟨named, root, origin, fun file own apart => last file (ends file own apart)⟩, below⟩

/-! ### Files -/

/-- What a work leaves has the sources of what is left after the exclude tokens. -/
theorem sources_entries (making : Making) :
    making.entries.map (·.source) = (making.excluded making.recipe.excludes).1.map (·.source) := by
  obtain ⟨change, whole, -⟩ := making.exists_entries
  rw [whole, List.map_map]
  rfl

private theorem distinct_included (making : Making) (tokens : List (Reported String)) :
    Entry.Distinct (making.included tokens).1 := by
  induction tokens using List.reverseRecOn with
  | nil => exact .nil
  | append_singleton before token ih =>
    rw [included_concat]
    exact ih.gather _

theorem distinct_entries (making : Making) : Entry.Distinct making.entries := by
  rw [Entry.distinct_iff_sources, sources_entries, ← Entry.distinct_iff_sources]
  exact (distinct_included making _).sublist (making.excluded_sublist _)

/-- What a work leaves was left after the last of its exclude tokens. -/
theorem exists_excluded {entry : Entry} (member : entry ∈ making.entries) :
    ∃ old ∈ (making.excluded making.recipe.excludes).1, old.source = entry.source := by
  have source := List.mem_map_of_mem (f := (·.source)) member
  rw [sources_entries] at source
  exact List.mem_map.mp source

/-- The sources that a work leaves are left after each of its exclude tokens. -/
theorem left_after_token {before rest : List (Reported String)} {token : Reported String}
    (split : making.recipe.excludes = before ++ token :: rest) {entry : Entry}
    (member : entry ∈ making.entries) :
    ∃ old ∈ (making.excluded (before ++ [token])).1, old.source = entry.source := by
  obtain ⟨old, left, same⟩ := exists_excluded member
  have parted : making.recipe.excludes = (before ++ [token]) ++ rest := by simp [split]
  rw [parted] at left
  exact ⟨old, (making.excluded_append_sublist _ _).subset left, same⟩

/-- No source that a work leaves matches an exclude token that is a pattern. -/
theorem excludes_eq_false {token : Reported String} (member : token ∈ making.recipe.excludes)
    (undeclared : making.start.slots.declares token.value = false) {exclusion : Glob.Exclusion}
    (compiled : Glob.Exclusion.compile token.value = .ok exclusion) :
    ∀ entry ∈ making.entries, exclusion.excludes entry.source = false := by
  intro entry inside
  obtain ⟨before, rest, split⟩ := List.append_of_mem member
  obtain ⟨old, left, same⟩ := left_after_token split inside
  have front : before <+: making.recipe.excludes := ⟨token :: rest, split.symm⟩
  have pattern : ¬ (making.excluded before).2.slots.declares token.value = true := by
    rwa [Slots.declares_iff, making.throughout_names.excluded before front,
      ← Slots.declares_eq_false_iff]
  rw [excluded_concat, Site.excluding, Assembly.slots_reportAll, if_neg pattern] at left
  simp only [Site.kept, compiled] at left
  rw [← same]
  simpa using (List.mem_filter.mp left).2

/-- No source that a work leaves is in a list that an exclude token names, if that is done when it
is excluded. -/
theorem covers_eq_false {before rest : List (Reported String)} {token : Reported String}
    (split : making.recipe.excludes = before ++ token :: rest) {others : List Entry}
    (done : (making.excluded (before ++ [token])).2.slots.progress? token.value =
      some (.done others)) :
    ∀ entry ∈ making.entries, Entry.covers others entry.source = false := by
  intro entry inside
  obtain ⟨old, left, same⟩ := left_after_token split inside
  rw [← same]
  rw [excluded_concat] at left done
  have ended : (Site.excluding making.request making.recipe token.value (making.excluded before).1
      ((making.excluded before).2.reportAll token.reports)).2.slots.entries? token.value =
        some others := by
    rw [Slots.entries?, done]
    rfl
  unfold Site.excluding at left ended
  split at left
  · rename_i declared
    rw [if_pos declared] at ended
    dsimp only at left ended
    rw [ended] at left
    simpa [Entry.without] using (List.mem_filter.mp left).2
  · rename_i undeclared
    have absent : ((making.excluded before).2.slots.progress? token.value) = none := by
      simpa [Slots.declares] using undeclared
    rw [if_neg undeclared] at ended
    simp [Slots.entries?, absent] at ended

end Making

end PackageSheet
