import PackageSheet.Proofs.FileList.Tour

namespace PackageSheet

def Slots.pending (slots : Slots) : List String :=
  (slots.map (·.1)).filter fun name => slots.progress? name = some .unvisited

private theorem Slots.length_pending_le (slots : Slots) : slots.pending.length ≤ slots.length :=
  (List.length_filter_le _ _).trans (List.length_map _).le

theorem Slots.mem_pending {slots : Slots} {name : String} :
    name ∈ slots.pending ↔ slots.progress? name = some .unvisited := by
  simp only [pending, List.mem_filter, decide_eq_true_eq, and_iff_right_iff_imp]
  intro known
  obtain ⟨slot, found, -⟩ := Option.map_eq_some_iff.mp known
  have same : slot.1 = name := by simpa using List.find?_some found
  exact same ▸ List.mem_map_of_mem (List.mem_of_find?_eq_some found)

theorem Assembly.Extends.pending_eq_filter {before after : Assembly}
    (extension : before.Extends after) :
    after.slots.pending =
      before.slots.pending.filter fun name => after.slots.progress? name = some .unvisited := by
  unfold Slots.pending
  rw [extension.names, List.filter_filter]
  apply List.filter_congr
  intro name _
  by_cases unvisited : after.slots.progress? name = some .unvisited
  · simp [unvisited, extension.unvisited name unvisited]
  · simp [unvisited]

theorem Assembly.Extends.length_pending_le {before after : Assembly}
    (extension : before.Extends after) :
    after.slots.pending.length ≤ before.slots.pending.length := by
  rw [extension.pending_eq_filter]
  exact List.length_filter_le _ _

private theorem Assembly.length_pending_mark_lt {assembly : Assembly} {name : String}
    (new : assembly.slots.progress? name = some .unvisited) :
    (assembly.mark name .inProgress).slots.pending.length < assembly.slots.pending.length := by
  have extension : assembly.Extends (assembly.mark name .inProgress) := .mark new nofun nofun
  rw [extension.pending_eq_filter]
  refine List.length_filter_lt_length_iff_exists.mpr ⟨name, Slots.mem_pending.mpr new, ?_⟩
  simp [Slots.progress?_mark, new]

/-- Work through tokens one after another, each after what was reported about it. -/
def Site.eachToken (act : String → List Entry → Assembly → List Entry × Assembly) :
    List (Reported String) → List Entry → Assembly → List Entry × Assembly
  | [], entries, assembly => (entries, assembly)
  | token :: tokens, entries, assembly =>
    let (left, after) := act token.value entries (assembly.reportAll token.reports)
    eachToken act tokens left after

theorem Site.includeAll_eq_eachToken (site : Site) (request : Request) (recipe : Recipe)
    (tokens : List (Reported String)) (entries : List Entry) (assembly : Assembly) :
    site.includeAll request recipe tokens entries assembly =
      eachToken (fun token entries assembly =>
        (Entry.gather entries (site.including request recipe token assembly).1,
          (site.including request recipe token assembly).2)) tokens entries assembly := by
  induction tokens generalizing entries assembly with
  | nil => rfl
  | cons token tokens ih => exact ih _ _

theorem Site.excludeAll_eq_eachToken (request : Request) (recipe : Recipe)
    (tokens : List (Reported String)) (entries : List Entry) (assembly : Assembly) :
    excludeAll request recipe tokens entries assembly =
      eachToken (excluding request recipe) tokens entries assembly := by
  induction tokens generalizing entries assembly with
  | nil => rfl
  | cons token tokens ih => exact ih _ _

namespace Tour

variable {site : Site} {root name token : String} {path : List String} {recipe : Recipe}
  {request : Site.Request} {budget : Nat} {first second last : Assembly} {before after : Tour}

theorem Steps.trans {third : Tour} (earlier : Steps site root before after)
    (later : Steps site root after third) : Steps site root before third :=
  Relation.ReflTransGen.trans earlier later

theorem Steps.reportAll {ds : List Diagnostic} (plain : ArePlain ds) :
    Steps site root ⟨path, first⟩ ⟨path, first.reportAll ds⟩ := by
  refine .single (.write (ds.map .diagnostic) ?_)
  intro entry member
  obtain ⟨d, reported, rfl⟩ := List.mem_map.mp member
  simp [JournalEntry.isPlain, plain d reported]

private theorem Steps.note (text : String) :
    Steps site root ⟨path, first⟩ ⟨path, first.note text⟩ := by
  refine .single (.write [.note text] ?_)
  intro entry member
  rw [List.mem_singleton.mp member]
  rfl

private theorem Settled.extends (settled : Settled ⟨path, first⟩ name)
    (extension : first.Extends second) :
    Settled ⟨path, second⟩ name := by
  rcases settled with ⟨entries, done⟩ | ⟨busy, accused⟩
  · exact .inl ⟨entries, extension.done name entries done⟩
  · exact .inr ⟨busy, extension.reported accused⟩

private theorem entriesOf_eq_of_settled (late : Valid site ⟨path, last⟩) (extension : first.Extends last)
    (settled : (site.only? name).isSome → Settled ⟨path, first⟩ name) :
    first.entriesOf name = last.entriesOf name := by
  by_cases done : first.IsDone name
  · obtain ⟨entries, found⟩ := done
    rw [Assembly.entriesOf_eq found, Assembly.entriesOf_eq (extension.done name entries found)]
  · have never : ¬ last.IsDone name := by
      intro finished
      rcases settled (late.unique_of_isDone finished) with already | ⟨busy, -⟩
      · exact done already
      · exact late.not_mem_of_isDone finished busy
    rw [Assembly.entriesOf_eq_nil done, Assembly.entriesOf_eq_nil never]

/-- A tour came back to its path, and the lists of some names are settled. -/
structure Served (site : Site) (root : String) (path : List String) (first last : Assembly)
    (names : List String) : Prop where
  steps : Steps site root ⟨path, first⟩ ⟨path, last⟩
  settled : ∀ name ∈ names, (site.only? name).isSome → Settled ⟨path, last⟩ name

private theorem Served.of_steps (steps : Steps site root ⟨path, first⟩ ⟨path, last⟩) :
    Served site root path first last [] :=
  ⟨steps, nofun⟩

theorem Served.trans {names others : List String} (valid : Valid site ⟨path, first⟩)
    (earlier : Served site root path first second names)
    (later : Served site root path second last others) :
    Served site root path first last (names ++ others) := by
  refine ⟨earlier.steps.trans later.steps, ?_⟩
  intro name member unique
  rcases List.mem_append.mp member with early | late
  · have extension := later.steps.extends (earlier.steps.valid valid)
    exact (earlier.settled name early unique).extends extension
  · exact later.settled name late unique

/-- A request serves a path within a budget if it settles every list that may be asked for there. -/
def Serves (site : Site) (root : String) (path : List String) (budget : Nat)
    (request : Site.Request) : Prop :=
  ∀ name assembly, Valid site ⟨path, assembly⟩ → assembly.slots.pending.length ≤ budget →
    ((site.only? name).isSome → MayAsk site root path name) →
      Served site root path assembly (request name assembly) [name]

theorem Valid.not_isDone {one two : Recipe} {others : List Recipe}
    (valid : Valid site ⟨path, first⟩) (several : site.recipes token = one :: two :: others) :
    ¬ first.IsDone token := by
  intro done
  have unique := Site.isSome_only?_iff.mp (valid.unique_of_isDone done)
  simp [several] at unique

private theorem contributed_of_declared (valid : Valid site ⟨path, first⟩)
    (declared : site.recipes token ≠ []) :
    site.contributed first.entriesOf recipe token = first.entriesOf token := by
  unfold Site.contributed
  split
  · rfl
  · rename_i several
    exact (Assembly.entriesOf_eq_nil (valid.not_isDone several)).symm
  · contradiction

private theorem bars_of_declared (valid : Valid site ⟨path, first⟩) (declared : site.recipes token ≠ [])
    (entry : Entry) :
    site.bars first.entriesOf token entry =
      Entry.covers (first.entriesOf token) entry.source := by
  unfold Site.bars
  split
  · rfl
  · rename_i several
    rw [Assembly.entriesOf_eq_nil (valid.not_isDone several)]
    rfl
  · contradiction

private theorem value_found (absent : site.recipes token = []) (entriesOf : String → List Entry) :
    (site.found recipe token).value = site.contributed entriesOf recipe token := by
  unfold Site.found Site.contributed
  rw [absent]
  dsimp only
  cases site.storage.glob recipe.root.value token with
  | error fault => rfl
  | ok files => cases files <;> rfl

private theorem value_kept (absent : site.recipes token = []) (entriesOf : String → List Entry)
    (entries : List Entry) :
    (Site.kept recipe token entries).value =
      entries.filter fun entry => !site.bars entriesOf token entry := by
  unfold Site.kept Site.bars
  rw [absent]
  dsimp only
  cases Glob.Exclusion.compile token with
  | error fault => simp
  | ok exclusion => rfl

/-- Working through tokens serves all of them, if the work on each one does. When this changes the
entries only by the lists that the tokens name, the result can be told by what is done in any later
assembly on the same path. -/
theorem eachToken_tour (act : String → List Entry → Assembly → List Entry × Assembly)
    (change : (String → List Entry) → String → List Entry → List Entry)
    (acts : ∀ token ∈ recipe.references, ∀ entries assembly, Valid site ⟨path, assembly⟩ →
      assembly.slots.pending.length ≤ budget →
        Served site root path assembly (act token entries assembly).2 [token] ∧
          (act token entries assembly).1 =
            change (act token entries assembly).2.entriesOf token entries)
    (congr : ∀ token entries one two, ((site.only? token).isSome → one token = two token) →
      change one token entries = change two token entries)
    {tokens : List (Reported String)} (entries : List Entry)
    (members : ∀ token ∈ tokens, token.value ∈ recipe.references ∧ ArePlain token.reports)
    (valid : Valid site ⟨path, first⟩) (enough : first.slots.pending.length ≤ budget) :
    let result := Site.eachToken act tokens entries first
    Served site root path first result.2 (tokens.map (·.value)) ∧
      ∀ last, Valid site ⟨path, last⟩ → result.2.Extends last →
        result.1 = tokens.foldl (fun entries token => change last.entriesOf token.value entries)
          entries := by
  induction tokens generalizing entries first with
  | nil => exact ⟨.of_steps .refl, fun _ _ _ => rfl⟩
  | cons token tokens ih =>
    obtain ⟨⟨member, plain⟩, members⟩ := List.forall_mem_cons.mp members
    have reported : Steps site root ⟨path, first⟩ ⟨path, first.reportAll token.reports⟩ :=
      .reportAll plain
    have started := reported.valid valid
    have step := acts token.value member entries _ started enough
    simp only [Site.eachToken]
    generalize act token.value entries (first.reportAll token.reports) = result at step ⊢
    obtain ⟨left, after⟩ := result
    obtain ⟨served, changed⟩ := step
    dsimp only at served changed
    have arrived := served.steps.valid started
    have fewer := (served.steps.extends started).length_pending_le.trans enough
    obtain ⟨others, folded⟩ := ih left members arrived fewer
    refine ⟨((Served.of_steps reported).trans valid served).trans valid others, ?_⟩
    intro last late extension
    have agree (unique : (site.only? token.value).isSome) :
        after.entriesOf token.value = last.entriesOf token.value :=
      entriesOf_eq_of_settled late ((others.steps.extends arrived).trans extension) fun _ =>
        served.settled _ (List.mem_singleton_self _) unique
    rw [folded last late extension, List.foldl_cons, changed, congr _ _ _ _ agree]

theorem served_of_undeclared {ds : List Diagnostic} (plain : ArePlain ds)
    (undeclared : site.recipes token = []) :
    Served site root (name :: path) first (first.reportAll ds) [token] := by
  refine ⟨.reportAll plain, ?_⟩
  intro other same unique
  rw [List.mem_singleton.mp same, Site.isSome_only?_iff, undeclared] at unique
  cases unique

section Assemble

variable (found : site.only? name = some recipe)
  (serves : Serves site root (name :: path) budget request)
include found serves

theorem served_token (member : token ∈ recipe.references)
    (valid : Valid site ⟨name :: path, first⟩) (enough : first.slots.pending.length ≤ budget) :
    Served site root (name :: path) first (request token first) [token] :=
  serves token first valid enough fun unique => ⟨⟨recipe, found, member⟩, unique⟩

private theorem including_tour (member : token ∈ recipe.references)
    (valid : Valid site ⟨name :: path, first⟩) (enough : first.slots.pending.length ≤ budget) :
    let result := site.including request recipe token first
    Served site root (name :: path) first result.2 [token] ∧
      result.1 = site.contributed result.2.entriesOf recipe token := by
  by_cases declared : site.recipes token = []
  · have absent : ¬ first.slots.declares token = true :=
      fun declares => (valid.declared token).mp declares declared
    simp only [Site.including, absent, Bool.false_eq_true, ↓reduceIte]
    exact ⟨served_of_undeclared (Site.arePlain_found _ _ _) declared, value_found declared _⟩
  · have declares : first.slots.declares token = true := (valid.declared token).mpr declared
    have served := served_token found serves member valid enough
    simp only [Site.including, declares, ↓reduceIte]
    exact ⟨served, (contributed_of_declared (served.steps.valid valid) declared).symm⟩

private theorem excluding_tour (member : token ∈ recipe.references)
    (valid : Valid site ⟨name :: path, first⟩) (enough : first.slots.pending.length ≤ budget)
    (entries : List Entry) :
    let result := Site.excluding request recipe token entries first
    Served site root (name :: path) first result.2 [token] ∧
      result.1 = entries.filter fun entry => !site.bars result.2.entriesOf token entry := by
  by_cases declared : site.recipes token = []
  · have absent : ¬ first.slots.declares token = true :=
      fun declares => (valid.declared token).mp declares declared
    simp only [Site.excluding, absent, Bool.false_eq_true, ↓reduceIte]
    exact ⟨served_of_undeclared (Site.arePlain_kept _ _ _) declared, value_kept declared _ entries⟩
  · have declares : first.slots.declares token = true := (valid.declared token).mpr declared
    have served := served_token found serves member valid enough
    have bars := bars_of_declared (served.steps.valid valid) declared
    simp only [Site.excluding, declares, ↓reduceIte, bars]
    exact ⟨served, rfl⟩

private theorem includeAll_tour {tokens : List (Reported String)} (entries : List Entry)
    (members : ∀ token ∈ tokens, token.value ∈ recipe.references ∧ ArePlain token.reports)
    (valid : Valid site ⟨name :: path, first⟩) (enough : first.slots.pending.length ≤ budget) :
    let result := site.includeAll request recipe tokens entries first
    Served site root (name :: path) first result.2 (tokens.map (·.value)) ∧
      ∀ last, Valid site ⟨name :: path, last⟩ → result.2.Extends last →
        result.1 = Entry.gather entries
          (tokens.flatMap fun token => site.contributed last.entriesOf recipe token.value) := by
  simp only [Site.includeAll_eq_eachToken, ← Entry.foldl_gather]
  refine eachToken_tour _
    (fun known token entries => Entry.gather entries (site.contributed known recipe token))
    ?_ ?_ entries members valid enough
  · intro token member entries assembly valid enough
    obtain ⟨served, contributed⟩ := including_tour found serves member valid enough
    exact ⟨served, congrArg (Entry.gather entries) contributed⟩
  · intro token entries one two agree
    exact congrArg (Entry.gather entries) (Site.contributed_congr agree)

private theorem excludeAll_tour {tokens : List (Reported String)} (entries : List Entry)
    (members : ∀ token ∈ tokens, token.value ∈ recipe.references ∧ ArePlain token.reports)
    (valid : Valid site ⟨name :: path, first⟩) (enough : first.slots.pending.length ≤ budget) :
    let result := Site.excludeAll request recipe tokens entries first
    Served site root (name :: path) first result.2 (tokens.map (·.value)) ∧
      ∀ last, Valid site ⟨name :: path, last⟩ → result.2.Extends last →
        result.1 = entries.filter fun entry =>
          tokens.all fun token => !site.bars last.entriesOf token.value entry := by
  simp only [Site.excludeAll_eq_eachToken, ← Entry.foldl_filter]
  refine eachToken_tour _
    (fun known token entries => entries.filter fun entry => !site.bars known token entry)
    ?_ ?_ entries members valid enough
  · intro token member entries assembly valid enough
    exact excluding_tour found serves member valid enough entries
  · intro token entries one two agree
    apply List.filter_congr
    intro entry _
    rw [Site.bars_congr entry agree]

private theorem tokens_tour (valid : Valid site ⟨name :: path, first⟩)
    (enough : first.slots.pending.length ≤ budget) :
    let included := site.includeAll request recipe recipe.includes [] first
    let excluded := Site.excludeAll request recipe recipe.excludes included.1 included.2
    Served site root (name :: path) first excluded.2 recipe.references ∧
      Entry.place recipe.destination.value (Entry.trim recipe.policy.value excluded.1) =
        site.content excluded.2.entriesOf recipe := by
  have plain := Site.isPlain_of_mem_recipes (Site.mem_recipes_of_only? found)
  have includes : ∀ token ∈ recipe.includes,
      token.value ∈ recipe.references ∧ ArePlain token.reports := fun token member =>
    ⟨List.mem_map_of_mem (List.mem_append_left _ member), plain.includes token member⟩
  have excludes : ∀ token ∈ recipe.excludes,
      token.value ∈ recipe.references ∧ ArePlain token.reports := fun token member =>
    ⟨List.mem_map_of_mem (List.mem_append_right _ member), plain.excludes token member⟩
  intro included excluded
  obtain ⟨servedIncludes, gathering⟩ := includeAll_tour found serves [] includes valid enough
  have halfway := servedIncludes.steps.valid valid
  have fewer := (servedIncludes.steps.extends valid).length_pending_le.trans enough
  obtain ⟨servedExcludes, filtering⟩ :=
    excludeAll_tour found serves included.1 excludes halfway fewer
  have finished := servedExcludes.steps.valid halfway
  have extension := servedExcludes.steps.extends halfway
  constructor
  · have served := servedIncludes.trans valid servedExcludes
    rwa [← List.map_append] at served
  · have gathered : included.1 = _ := gathering excluded.2 finished extension
    have left : excluded.1 = _ := filtering excluded.2 finished (.refl _)
    rw [left, gathered, Entry.gather_nil]
    rfl

private theorem assemble_tour (new : first.slots.progress? name = some .unvisited)
    (valid : Valid site ⟨path, first⟩) (asked : MayAsk site root path name)
    (enough : first.slots.pending.length ≤ budget + 1) :
    Steps site root ⟨path, first⟩ ⟨path, site.assemble request recipe first⟩ ∧
      (site.assemble request recipe first).IsDone name := by
  have own := Site.mem_recipes_of_only? found
  have plain := Site.isPlain_of_mem_recipes own
  have called : recipe.name = name := Site.name_of_mem_recipes own
  have entered : Steps site root ⟨path, first⟩ ⟨name :: path, first.mark name .inProgress⟩ :=
    .single (.enter new (by simp [found]) asked)
  let start :=
    ((first.mark name .inProgress).note "resolving file list").reportAll recipe.root.reports
  have begun : Steps site root ⟨path, first⟩ ⟨name :: path, start⟩ :=
    (entered.trans (.note _)).trans (.reportAll plain.root)
  have started := begun.valid valid
  have fewer : start.slots.pending.length ≤ budget :=
    Nat.le_of_lt_succ ((Assembly.length_pending_mark_lt new).trans_le enough)
  obtain ⟨served, content⟩ := tokens_tour found serves started fewer
  simp only [Site.assemble, called]
  rw [content]
  generalize (Site.excludeAll request recipe recipe.excludes _ _).2 = finish at served ⊢
  have settled (other : String) (edge : site.Refers name other) :
      Settled ⟨name :: path, finish⟩ other :=
    served.settled other (edge.mem_references found) edge.unique
  have reported : Steps site root ⟨name :: path, finish⟩ ⟨name :: path,
      (finish.reportAll (recipe.policy.reports ++ recipe.destination.reports)).note
        "resolved file list"⟩ :=
    (Steps.reportAll (arePlain_append.mpr ⟨plain.policy, plain.destination⟩)).trans (.note _)
  have left : Steps site root ⟨name :: path, finish⟩ ⟨path, ((finish.reportAll
      (recipe.policy.reports ++ recipe.destination.reports)).note "resolved file list").mark name
        (.done (site.content finish.entriesOf recipe))⟩ :=
    reported.tail (.leave found settled)
  refine ⟨(begun.trans served.steps).trans left, site.content finish.entriesOf recipe, ?_⟩
  simp [Slots.progress?_mark, (served.steps.valid started).progress_of_head]

end Assemble

private theorem Served.of_one {name : String} (steps : Steps site root ⟨path, first⟩ ⟨path, last⟩)
    (settled : (site.only? name).isSome → Settled ⟨path, last⟩ name) :
    Served site root path first last [name] :=
  ⟨steps, fun _ same => List.mem_singleton.mp same ▸ settled⟩

/-- A visit with a step for each unvisited list serves every path. The induction is on the budget,
since each list that is entered takes one of its steps. -/
theorem visit_tour (budget : Nat) : Serves site root path budget (site.visit budget) := by
  induction budget using Nat.strong_induction_on generalizing path with
  | _ budget ih =>
    intro name assembly valid enough asked
    have declared := valid.declared name
    rw [Site.visit]
    split
    · rename_i absent
      have undefined : site.recipes name = [] := by simpa [absent] using declared
      refine .of_one (.single (.undefined undefined)) ?_
      intro unique
      simp [Site.isSome_only?_iff, undefined] at unique
    · rename_i entries done
      exact .of_one .refl fun _ => .inl ⟨entries, done⟩
    · rename_i inProgress
      have busy : name ∈ path := (valid.busy name).mp inProgress
      obtain ⟨top, rest, rfl⟩ := List.exists_cons_of_ne_nil (List.ne_nil_of_mem busy)
      have edge : site.Refers top name := asked (valid.unique_of_mem busy)
      refine .of_one (.single (.circular edge busy)) fun _ => .inr ⟨busy, ?_⟩
      exact Assembly.mem_reported_complain.mpr (.inl rfl)
    · rename_i new
      split
      · rename_i undefined
        refine .of_one (.single (.undefined undefined)) ?_
        intro unique
        simp [Site.isSome_only?_iff, undefined] at unique
      · rename_i recipe single
        have found : site.only? name = some recipe := Site.only?_eq_some.mpr single
        cases budget with
        | zero =>
          have pending := List.length_pos_of_mem (Slots.mem_pending.mpr new)
          omega
        | succ budget =>
          have deeper : Serves site root (name :: path) budget (site.visit budget) :=
            ih budget budget.lt_succ_self
          obtain ⟨steps, done⟩ :=
            assemble_tour found deeper new valid (asked (by simp [found])) enough
          exact .of_one steps fun _ => .inl done
      · rename_i several
        refine .of_one (.single (.ambiguous several)) ?_
        intro unique
        simp [Site.isSome_only?_iff, several] at unique

/-- A request from outside is a tour from the empty path and back to it, and leaves a list with one
rule done. -/
theorem resolve_tour {assembly : Assembly} (valid : Valid site ⟨[], assembly⟩) (name : String) :
    Steps site name ⟨[], assembly⟩ ⟨[], (site.resolve name assembly).2⟩ ∧
      ((site.only? name).isSome → (site.resolve name assembly).2.IsDone name) := by
  have served : Served site name [] assembly (site.resolve name assembly).2 [name] :=
    visit_tour assembly.slots.length name assembly valid (Slots.length_pending_le _) fun _ => rfl
  refine ⟨served.steps, ?_⟩
  intro unique
  rcases served.settled name (List.mem_singleton_self name) unique with done | ⟨busy, -⟩
  · exact done
  · cases busy

end Tour

end PackageSheet
