import PackageSheet.Proofs.FileList.Reference

namespace PackageSheet

namespace Entry

/-- The entries, but for each file only the first. -/
def firsts : List Entry → List Entry
  | [] => []
  | entry :: entries =>
    entry :: (firsts entries).filter fun other => !other.source.same entry.source

theorem gather_append (entries first second : List Entry) :
    gather entries (first ++ second) = gather (gather entries first) second := by
  induction first generalizing entries with
  | nil => rfl
  | cons entry first ih => exact ih _

private theorem covers_append (entries others : List Entry) (source : Path) :
    covers (entries ++ others) source = (covers entries source || covers others source) :=
  List.any_append

theorem covers_of_same {entries : List Entry} {source other : Path} (same : source.same other) :
    covers entries source = covers entries other := by
  have components : source.components = other.components := by simpa [Path.same] using same
  simp [covers, Path.same, components]

/-- Gathering keeps the first entry of each file that is not there yet. -/
theorem gather_eq_append_filter (entries more : List Entry) :
    gather entries more =
      entries ++ (firsts more).filter fun entry => !covers entries entry.source := by
  induction more generalizing entries with
  | nil => simp [gather, firsts]
  | cons entry more ih =>
    rw [gather, ih]
    by_cases covered : covers entries entry.source = true
    · have kept : ∀ other ∈ firsts more,
          (!covers entries other.source) =
            (!other.source.same entry.source && !covers entries other.source) := by
        intro other _
        by_cases same : other.source.same entry.source = true
        · simp [covers_of_same same, covered]
        · simp [same]
      simp [firsts, covered, List.filter_filter, List.filter_congr kept, Bool.and_comm]
    · have single (other : Entry) : covers [entry] other.source =
          other.source.same entry.source := by
        simp [covers, Path.same, Bool.beq_comm]
      simp [firsts, covered, List.filter_filter, covers_append, single]

theorem gather_nil (more : List Entry) : gather [] more = firsts more := by
  simp [gather_eq_append_filter, covers]

theorem foldl_gather {α : Type} (more : α → List Entry) (items : List α) (entries : List Entry) :
    items.foldl (fun entries item => gather entries (more item)) entries =
      gather entries (items.flatMap more) := by
  induction items generalizing entries with
  | nil => rfl
  | cons item items ih => rw [List.foldl_cons, ih, List.flatMap_cons, gather_append]

theorem foldl_filter {α : Type} (bars : α → Entry → Bool) (items : List α)
    (entries : List Entry) :
    items.foldl (fun entries item => entries.filter fun entry => !bars item entry) entries =
      entries.filter fun entry => items.all fun item => !bars item entry := by
  induction items generalizing entries with
  | nil => simp
  | cons item items ih => simp [ih, List.filter_filter, Bool.and_comm]

end Entry

namespace Site

/-- The entries that an include token contributes: those of the list that it names, none where the
name is ambiguous or the token no pattern, else those for the files that it stands for. -/
def contributed (site : Site) (entriesOf : String → List Entry) (recipe : Recipe)
    (token : String) : List Entry :=
  match site.recipes token with
  | [_] => entriesOf token
  | _ :: _ :: _ => []
  | [] =>
    match site.storage.glob recipe.root.value token with
    | .ok files => files.map (Entry.below recipe.root.value)
    | .error _ => []

/-- Whether an exclude token bars an entry: its file is in the list that the token names, or the
token is a pattern that stands for it. -/
def bars (site : Site) (entriesOf : String → List Entry) (token : String) (entry : Entry) : Bool :=
  match site.recipes token with
  | [_] => Entry.covers (entriesOf token) entry.source
  | _ :: _ :: _ => false
  | [] =>
    match Glob.Exclusion.compile token with
    | .ok exclusion => exclusion.excludes entry.source
    | .error _ => false

/-- The content of the list of a recipe, by that of the lists it refers to. -/
def content (site : Site) (entriesOf : String → List Entry) (recipe : Recipe) : List Entry :=
  let gathered := Entry.firsts <| recipe.includes.flatMap fun token =>
    site.contributed entriesOf recipe token.value
  let left := gathered.filter fun entry =>
    recipe.excludes.all fun token => !site.bars entriesOf token.value entry
  Entry.place recipe.destination.value (Entry.trim recipe.policy.value left)

variable {site : Site} {first second : String → List Entry} {recipe : Recipe} {token : String}

theorem contributed_congr (agree : (site.only? token).isSome → first token = second token) :
    site.contributed first recipe token = site.contributed second recipe token := by
  unfold contributed
  split
  · rename_i found
    exact agree (by simp [only?, found])
  · rfl
  · rfl

theorem bars_congr (entry : Entry)
    (agree : (site.only? token).isSome → first token = second token) :
    site.bars first token entry = site.bars second token entry := by
  unfold bars
  split
  · rename_i found
    rw [agree (by simp [only?, found])]
  · rfl
  · rfl

/-- The content of a list depends on the lists it refers to and on no others. -/
theorem content_congr (agree : ∀ other ∈ recipe.references,
      (site.only? other).isSome → first other = second other) :
    site.content first recipe = site.content second recipe := by
  have included : ∀ token ∈ recipe.includes,
      site.contributed first recipe token.value = site.contributed second recipe token.value := by
    intro token member
    have named : token.value ∈ recipe.references :=
      List.mem_map_of_mem (List.mem_append_left _ member)
    exact contributed_congr (agree _ named)
  have excluded : ∀ entry, ∀ token ∈ recipe.excludes,
      site.bars first token.value entry = site.bars second token.value entry := by
    intro entry token member
    have named : token.value ∈ recipe.references :=
      List.mem_map_of_mem (List.mem_append_right _ member)
    exact bars_congr entry (agree _ named)
  have kept (entry : Entry) :
      (recipe.excludes.all fun token => !site.bars first token.value entry) =
        recipe.excludes.all fun token => !site.bars second token.value entry := by
    rw [Bool.eq_iff_iff, List.all_eq_true, List.all_eq_true]
    exact forall₂_congr fun token member => by rw [excluded entry token member]
  unfold content
  simp only [List.flatMap_congr included, kept]

/-- The content of the list of a name, by recursion over its references. -/
def listing (site : Site) (acyclic : site.Acyclic) (name : String) : List Entry :=
  match site.only? name with
  | some recipe =>
    let entriesOf (other : String) : List Entry :=
      if _edge : site.Refers name other then listing site acyclic other else []
    site.content entriesOf recipe
  | none => []
termination_by acyclic.wellFounded.wrap name
decreasing_by exact _edge

/-- The listing of a list is its content by the listings of the lists it refers to. -/
theorem listing_eq (acyclic : site.Acyclic) {name : String}
    (found : site.only? name = some recipe) :
    site.listing acyclic name = site.content (site.listing acyclic) recipe := by
  rw [listing, found]
  apply content_congr
  intro other member unique
  have edge : site.Refers name other := ⟨⟨recipe, found, member⟩, unique⟩
  simp [edge]

end Site

end PackageSheet
