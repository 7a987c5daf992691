import PackageSheet.Proofs.Catalog.Coherence

/-!
Catalogs that serve requests while their sheets grow. To tell how often a view is made, the work is done
once more with views that are made by an action (`Catalog.serveAllBy`); with one that writes down the
rules, it leads to the same, and writes down one rule for each key that was ever requested
(`Catalog.serveAll_current`).
-/

namespace PackageSheet

private theorem eraseDups_concat (xs : List String) (x : String) :
    (xs ++ [x]).eraseDups = if x ∈ xs then xs.eraseDups else xs.eraseDups ++ [x] := by
  rw [List.eraseDups_append, List.cons_removeAll]
  by_cases known : x ∈ xs
  · rw [if_pos known, if_neg (by simpa using known)]
    exact List.append_nil _
  · rw [if_neg known, if_pos (by simpa using known)]
    rfl

theorem run_bind_eq {σ β γ : Type} {x : StateM σ β} {f : β → StateM σ γ} {before after : σ} {b : β}
    (told : x.run before = (b, after)) : (x >>= f).run before = (f b).run after := by
  rw [StateT.run_bind, told]
  rfl

namespace Catalog

variable {α : Type}

/-- What can be asked of a catalog on a sheet: the view of a key, and those of the first keys of the
sheet as far as an iteration over them goes; between such requests the sheet can get another rule. -/
inductive Request where
  | get (key : String)
  | entries (count : Nat)
  | push (rule : Rule)

/-- What comes of a request: views with their keys, the catalog, and the sheet. -/
def serve (catalog : Catalog α) (sheet : Sheet) : Request → List (String × α) × Catalog α × Sheet
  | .get key => catalog.consultAll sheet [key]
  | .entries count => catalog.consultAll sheet ((catalog.keys sheet).take count)
  | .push rule => ([], catalog, sheet.push rule)

/-- What comes of some requests, one after another. -/
def serveAll (catalog : Catalog α) (sheet : Sheet) :
    List Request → List (String × α) × Catalog α × Sheet
  | [] => ([], catalog, sheet)
  | request :: requests =>
    let (views, next, extended) := catalog.serve sheet request
    let (others, last, after) := next.serveAll extended requests
    (views ++ others, last, after)

section Actions

variable {m : Type → Type} [Monad m]

/-- Consulting a catalog whose views are made by an action. -/
def consultBy (act : Sheet → Nat → m α) (catalog : Catalog α) (sheet : Sheet) (key : String) :
    m (Consulted α) :=
  match catalog.cached? key with
  | some value => return ⟨value, catalog, sheet, false⟩
  | none =>
    match sheet.select catalog.ruleName (some key) with
    | index :: _ => do
      let value ← act sheet index
      return ⟨value, catalog.keep key value, sheet, false⟩
    | [] => do
      let extended := sheet.push (catalog.missingRule key)
      let value ← act extended sheet.rules.length
      return ⟨value, catalog.keep key value, extended, true⟩

def consultAllBy (act : Sheet → Nat → m α) (catalog : Catalog α) (sheet : Sheet) :
    List String → m (List (String × α) × Catalog α × Sheet)
  | [] => return ([], catalog, sheet)
  | key :: keys => do
    let found ← consultBy act catalog sheet key
    let (others, last, extended) ← consultAllBy act found.catalog found.sheet keys
    return ((key, found.value) :: others, last, extended)

def serveBy (act : Sheet → Nat → m α) (catalog : Catalog α) (sheet : Sheet) :
    Request → m (List (String × α) × Catalog α × Sheet)
  | .get key => consultAllBy act catalog sheet [key]
  | .entries count => consultAllBy act catalog sheet ((catalog.keys sheet).take count)
  | .push rule => return ([], catalog, sheet.push rule)

/-- Some requests of a catalog whose views are made by an action. -/
def serveAllBy (act : Sheet → Nat → m α) (catalog : Catalog α) (sheet : Sheet) :
    List Request → m (List (String × α) × Catalog α × Sheet)
  | [] => return ([], catalog, sheet)
  | request :: requests => do
    let (views, next, extended) ← serveBy act catalog sheet request
    let (others, last, after) ← serveAllBy act next extended requests
    return (views ++ others, last, after)

end Actions

/-- Views that write down the rules which they are made of. -/
def noting (view : Sheet → Nat → α) (sheet : Sheet) (index : Nat) : StateM (List (Option Rule)) α := do
  modify (· ++ [sheet.rules[index]?])
  return view sheet index

/-- What is known of a catalog after some keys were requested: its views are up to date, and were made
once for each of the keys, of the first rule with it. -/
structure Ledger (name : String) (view : Sheet → Nat → α) (make : Rule → α) (requested : List String)
    (catalog : Catalog α) (sheet : Sheet) (notes : List (Option Rule)) : Prop
    extends Sound name make catalog sheet where
  viewed : catalog.view = view
  kept : catalog.cache.map (·.1) = requested.eraseDups
  notes : notes = requested.eraseDups.map (sheet.first? name)

variable {name : String} {view : Sheet → Nat → α} {make : Rule → α} {requested : List String}
  {catalog : Catalog α} {sheet after : Sheet} {notes : List (Option Rule)} {key : String}

private theorem isSome_cached?_iff : (catalog.cached? key).isSome ↔ key ∈ catalog.cache.map (·.1) := by
  simp [cached?, Option.isSome_map, List.find?_isSome]

namespace Ledger

theorem isSome_cached?_iff (ledger : Ledger name view make requested catalog sheet notes) :
    (catalog.cached? key).isSome ↔ key ∈ requested := by
  rw [Catalog.isSome_cached?_iff, ledger.kept, List.mem_eraseDups]

theorem isSome_first? (ledger : Ledger name view make requested catalog sheet notes)
    (known : key ∈ requested) : (sheet.first? name key).isSome := by
  obtain ⟨value, kept⟩ := Option.isSome_iff_exists.mp (ledger.isSome_cached?_iff.mpr known)
  have backed := ledger.coherent key value kept
  rw [ledger.named] at backed
  obtain ⟨rule, found, -⟩ := Option.map_eq_some_iff.mp backed
  rw [found]
  rfl

/-- Rules at the end of the sheet do not change what is known. -/
theorem mono (ledger : Ledger name view make requested catalog sheet notes)
    (grown : sheet.rules <+: after.rules) :
    Ledger name view make requested catalog after notes where
  toSound := ledger.toSound.mono grown
  viewed := ledger.viewed
  kept := ledger.kept
  notes := by
    rw [ledger.notes]
    refine List.map_congr_left fun key member => ?_
    obtain ⟨rule, found⟩ :=
      Option.isSome_iff_exists.mp (ledger.isSome_first? (List.mem_eraseDups.mp member))
    rw [found, Sheet.first?_of_prefix grown found]

private theorem consult (ledger : Ledger name view make requested catalog sheet notes) (key : String) :
    ∃ more, (consultBy (noting view) catalog sheet key).run notes =
        (catalog.consult sheet key, more) ∧
      Ledger name view make (requested ++ [key]) (catalog.consult sheet key).catalog
        (catalog.consult sheet key).sheet more := by
  cases kept : catalog.cached? key with
  | some value =>
    have known : key ∈ requested := ledger.isSome_cached?_iff.mp (by rw [kept]; rfl)
    have same : (requested ++ [key]).eraseDups = requested.eraseDups := by
      rw [eraseDups_concat, if_pos known]
    refine ⟨notes, ?_, ?_⟩
    · rw [consultBy, Catalog.consult, kept]
      rfl
    · rw [Catalog.consult, kept]
      exact ⟨ledger.toSound, ledger.viewed, same ▸ ledger.kept, same ▸ ledger.notes⟩
  | none =>
    have new : key ∉ requested := fun known => by
      have some := ledger.isSome_cached?_iff.mpr known
      rw [kept] at some
      cases some
    have oneMore : (requested ++ [key]).eraseDups = requested.eraseDups ++ [key] := by
      rw [eraseDups_concat, if_neg new]
    obtain ⟨index, rule, here, found, cases⟩ := catalog.exists_backing sheet key
    refine ⟨notes ++ [some rule], ?_, ?_⟩
    · rw [consultBy, Catalog.consult, kept, ← ledger.viewed, ← here]
      rcases cases with ⟨rest, selected, there, -⟩ | ⟨selected, rfl, there, -⟩
      · rw [selected, there]
        rfl
      · rw [selected, there]
        rfl
    · obtain ⟨value, current, consulted⟩ := consult_eq ledger.toSound key
      rw [consulted, kept]
      have grown := ledger.mono (catalog.prefix_provide sheet key)
      refine ⟨grown.toSound.keep current, ledger.viewed, ?_, ?_⟩
      · rw [oneMore, ← ledger.kept]
        exact List.map_append
      · rw [oneMore, List.map_append, grown.notes, ← ledger.named, ← found]
        rfl

private theorem consultAll (ledger : Ledger name view make requested catalog sheet notes)
    (keys : List String) :
    ∃ more, (consultAllBy (noting view) catalog sheet keys).run notes =
        (catalog.consultAll sheet keys, more) ∧
      Ledger name view make (requested ++ keys) (catalog.consultAll sheet keys).2.1
        (catalog.consultAll sheet keys).2.2 more := by
  induction keys generalizing requested catalog sheet notes with
  | nil => exact ⟨notes, rfl, (List.append_nil requested).symm ▸ ledger⟩
  | cons key keys ih =>
    obtain ⟨first, told, early⟩ := ledger.consult key
    obtain ⟨last, later, late⟩ := ih early
    refine ⟨last, ?_, ?_⟩
    · rw [consultAllBy, run_bind_eq told, run_bind_eq later]
      rfl
    · rw [List.append_assoc] at late
      exact late

private theorem serve (ledger : Ledger name view make requested catalog sheet notes)
    (request : Request) :
    ∃ more, (serveBy (noting view) catalog sheet request).run notes =
        (catalog.serve sheet request, more) ∧
      Ledger name view make (requested ++ (catalog.serve sheet request).1.map (·.1))
        (catalog.serve sheet request).2.1 (catalog.serve sheet request).2.2 more := by
  cases request with
  | get key =>
    exact ledger.consultAll [key]
  | entries count =>
    obtain ⟨more, told, later⟩ := ledger.consultAll ((catalog.keys sheet).take count)
    refine ⟨more, told, ?_⟩
    rw [Catalog.serve, keys_consultAll]
    exact later
  | push rule =>
    exact ⟨notes, rfl, (List.append_nil requested).symm ▸ ledger.mono (sheet.prefix_push rule)⟩

private theorem serveAll (ledger : Ledger name view make requested catalog sheet notes)
    (requests : List Request) :
    ∃ more, (serveAllBy (noting view) catalog sheet requests).run notes =
        (catalog.serveAll sheet requests, more) ∧
      Ledger name view make (requested ++ (catalog.serveAll sheet requests).1.map (·.1))
        (catalog.serveAll sheet requests).2.1 (catalog.serveAll sheet requests).2.2 more := by
  induction requests generalizing requested catalog sheet notes with
  | nil => exact ⟨notes, rfl, (List.append_nil requested).symm ▸ ledger⟩
  | cons request requests ih =>
    obtain ⟨first, told, early⟩ := ledger.serve request
    obtain ⟨last, later, late⟩ := ih early
    refine ⟨last, ?_, ?_⟩
    · rw [serveAllBy, run_bind_eq told, run_bind_eq later]
      rfl
    · rw [List.append_assoc, ← List.map_append] at late
      exact late

end Ledger

theorem Sound.serve (sound : Sound name make catalog sheet) (request : Request) :
    Served name make sheet (catalog.serve sheet request).1 (catalog.serve sheet request).2.1
      (catalog.serve sheet request).2.2 := by
  cases request with
  | get key => exact sound.consultAll [key]
  | entries count => exact sound.consultAll _
  | push rule =>
    have grown := sheet.prefix_push rule
    exact ⟨sound.mono grown, grown, nofun⟩

private theorem Sound.serveAll (sound : Sound name make catalog sheet) (requests : List Request) :
    Served name make sheet (catalog.serveAll sheet requests).1 (catalog.serveAll sheet requests).2.1
      (catalog.serveAll sheet requests).2.2 := by
  induction requests generalizing catalog sheet with
  | nil => exact sound.served
  | cons request requests ih =>
    exact (sound.serve request).append (ih (sound.serve request).toSound)

/-- A catalog whose views depend on their rules alone is never stale. Whatever it serves while its sheet
gets more rules, a view was made once for each key that was requested, of the first rule with the key,
and every view that was given back is that of the first rule. The sheet only grows at its end. A request
for a key yields the view of the first rule with it, after an empty one was put at the end if and only
if there was none. An iteration goes through the parameters in the order in which they come first in the
sheet, each once, yields the view of the first rule with each, and leaves the sheet as it is. -/
theorem serveAll_current (name : String) (view : Sheet → Nat → α) (make : Rule → α)
    (views : ∀ (sheet : Sheet) index rule, sheet.rules[index]? = some rule →
      view sheet index = make rule) (sheet : Sheet) (requests : List Request) :
    let catalog : Catalog α := ⟨name, view, []⟩
    let served := catalog.serveAll sheet requests
    let requested := (served.1.map (·.1)).eraseDups
    let there := served.2.1
    let now := served.2.2
    (serveAllBy (noting view) catalog sheet requests).run [] =
        (served, requested.map (now.first? name)) ∧
      (∀ key ∈ requested, (now.first? name key).isSome) ∧
      (∀ entry ∈ served.1, IsCurrent name make now entry) ∧
      sheet.rules <+: now.rules ∧
      (∀ key,
        let (found, _, after) := there.serve now (.get key)
        (∃ value, found = [(key, value)] ∧ IsCurrent name make after (key, value)) ∧
          after = if (now.first? name key).isSome then now
            else now.push (.synthesize name (if key = "" then none else some key))) ∧
      ∀ count,
        let (found, _, after) := there.serve now (.entries count)
        found.map (·.1) = (((now.named name).map Rule.key).eraseDups).take count ∧
          (∀ entry ∈ found, IsCurrent name make after entry) ∧ after = now := by
  intro catalog served requested there now
  have start : Ledger name view make [] catalog sheet [] :=
    ⟨⟨rfl, views, nofun⟩, rfl, rfl, rfl⟩
  obtain ⟨notes, told, ledger⟩ := start.serveAll requests
  have all : Served name make sheet served.1 there now := start.toSound.serveAll requests
  have sound := all.toSound
  refine ⟨?_, ?_, all.current, all.grown, ?_, ?_⟩
  · rw [told, ledger.notes]
    rfl
  · exact fun key member => ledger.isSome_first? (List.mem_eraseDups.mp member)
  · intro key
    obtain ⟨value, current, consulted⟩ := consult_eq sound key
    have answer : there.serve now (.get key) =
        ([(key, value)], (there.consult now key).catalog, there.provide now key) := by
      rw [serve, Catalog.consultAll, Catalog.consultAll, consulted]
    rw [answer]
    refine ⟨⟨value, rfl, current⟩, ?_⟩
    rw [provide, missingRule, sound.named]
  · intro count
    have keys : there.keys now = ((now.named name).map Rule.key).eraseDups := by
      rw [Catalog.keys, sound.named, Sheet.parameters, Sheet.distinct_eq, List.removeAll_nil]
    refine ⟨?_, (sound.serve (.entries count)).current, ?_⟩
    · rw [← keys]
      exact keys_consultAll there now _
    · refine sheet_consultAll_of_backed sound fun key member => ?_
      have listed : key ∈ there.keys now := List.mem_of_mem_take member
      rw [Catalog.keys, sound.named] at listed
      exact Sheet.isSome_first?_iff.mpr listed

def selectors (sheet : Sheet) (index : Nat) : String :=
  (sheet.rules[index]?.map (·.selectorText)).getD ""

/-- A sheet with two rules of one selector. -/
def twoRoles : Sheet where
  rules := [{ name := "role", parameter := some "a" }, { name := "role", parameter := some "a" }]

/-- Requests for a key without a rule, which later gets one, and for the keys of the sheet. -/
def mixed : List Request :=
  [.get "b", .push { name := "role", parameter := some "b" }, .entries 1, .get "b", .entries 2]

/-- Two views are made for these requests, and all that are given back are up to date. -/
theorem serveAll_current_selectors :
    let served := (⟨"role", selectors, []⟩ : Catalog String).serveAll twoRoles mixed
    ((serveAllBy (noting selectors) ⟨"role", selectors, []⟩ twoRoles mixed).run []).2.length = 2 ∧
      served.1.length = 5 ∧ ∀ entry ∈ served.1, IsCurrent "role" Rule.selectorText served.2.2 entry := by
  intro served
  have views (sheet : Sheet) (index : Nat) (rule : Rule) (here : sheet.rules[index]? = some rule) :
      selectors sheet index = rule.selectorText := by
    rw [selectors, here]
    rfl
  obtain ⟨told, -, current, -⟩ :=
    serveAll_current "role" selectors Rule.selectorText views twoRoles mixed
  refine ⟨?_, by decide, current⟩
  rw [told]
  decide

end Catalog

end PackageSheet
