import Mathlib.Data.List.Basic
import PackageSheet.Proofs.Sheet.Growth

/-!
Catalogs whose kept views never get stale. The first rule with a selector stays the first however a
sheet grows at its end, so a view that was made from it is the view that would be made now
(`Catalog.Sound.consult`).
-/

namespace PackageSheet

namespace Sheet

variable {apart name key : String} {sheet before after : Sheet}

/-- The first rule with a selector. A rule without a parameter has the empty one. -/
def first? (sheet : Sheet) (name key : String) : Option Rule :=
  sheet.rules.find? (·.isSelector name (some key))

theorem first?_eq_head? (sheet : Sheet) (name key : String) :
    sheet.first? name key = (sheet.selected name (some key)).head? :=
  List.head?_filter.symm

theorem isSome_first?_iff : (sheet.first? name key).isSome ↔ key ∈ sheet.parameters name := by
  rw [first?_eq_head?, List.isSome_head?, mem_parameters]

private theorem select_cases (sheet : Sheet) (name key : String) :
    (∃ index rest rule, sheet.select name (some key) = index :: rest ∧
      sheet.rules[index]? = some rule ∧ sheet.first? name key = some rule) ∨
    sheet.select name (some key) = [] ∧ sheet.first? name key = none := by
  have first : sheet.first? name key =
      (sheet.rules.zipIdx.filter (·.1.isSelector name (some key))).head?.map (·.1) := by
    rw [List.head?_filter, first?]
    conv => lhs; rw [← List.zipIdx_map_fst 0 sheet.rules, List.find?_map]
    rfl
  rw [select, indicesWhere, first]
  cases found : sheet.rules.zipIdx.filter (·.1.isSelector name (some key)) with
  | nil => exact .inr ⟨rfl, rfl⟩
  | cons pair rest =>
    obtain ⟨rule, index⟩ := pair
    have member : (rule, index) ∈ sheet.rules.zipIdx :=
      (List.mem_filter.mp (found ▸ List.mem_cons_self)).1
    exact .inl ⟨index, _, rule, rfl, List.mem_zipIdx_iff_getElem?.mp member, rfl⟩

/-- The first rule stays the first when rules are put at the end. -/
theorem first?_of_prefix {rule : Rule} (grown : sheet.rules <+: after.rules)
    (found : sheet.first? name key = some rule) : after.first? name key = some rule := by
  obtain ⟨more, whole⟩ := grown
  rw [first?, ← whole, List.find?_append, ← first?, found, Option.some_or]

theorem prefix_push (sheet : Sheet) (rule : Rule) : sheet.rules <+: (sheet.push rule).rules :=
  List.prefix_append _ _

/-- The parameters of the rules with a name are their keys, each at its first place. -/
theorem distinct_eq (seen xs : List String) : distinct seen xs = (xs.removeAll seen).eraseDups := by
  induction xs generalizing seen with
  | nil => rfl
  | cons x xs ih =>
    rw [distinct, List.cons_removeAll]
    by_cases known : x ∈ seen
    · rw [if_pos known, if_neg (by simpa using known)]
      exact ih seen
    · rw [if_neg known, if_pos (by simpa using known), List.eraseDups_cons, ih,
        List.removeAll_cons, List.removeAll, List.removeAll, List.filter_filter, List.filter_filter]
      simp only [Bool.and_comm]

/-- Rules at the end of a sheet put new parameters behind those from before. -/
theorem exists_parameters_of_prefix (grown : sheet.rules <+: after.rules) (name : String) :
    ∃ more, after.parameters name = sheet.parameters name ++ more ∧
      ∀ key ∈ more, key ∉ sheet.parameters name := by
  obtain ⟨rules, whole⟩ := grown
  simp only [parameters, named, ← whole, List.filter_append, List.map_append, distinct_eq,
    List.removeAll_nil, List.eraseDups_append]
  refine ⟨_, rfl, fun key member known => ?_⟩
  rw [List.mem_eraseDups] at member known
  have new := (List.mem_filter.mp member).2
  rw [List.elem_eq_mem] at new
  exact absurd known (by simpa using new)

/-- The first rule of a sheet that has grown is the first one from before, or a blank one. -/
theorem Grows.first?_cases (grown : before.Grows apart after) {rule : Rule}
    (found : after.first? name key = some rule) :
    before.first? name key = some rule ∨
      before.first? name key = none ∧ rule.properties = [] := by
  cases old : before.first? name key with
  | some other =>
    rw [Sheet.first?_of_prefix grown.isPrefix old] at found
    exact .inl found
  | none =>
    obtain ⟨blanks, split, blank⟩ := grown
    rw [first?, split, List.find?_append, ← first?, old, Option.none_or] at found
    exact .inr ⟨rfl, (blank rule (List.mem_of_find?_eq_some found)).1⟩

private theorem Grows.view_first? (grown : before.Grows apart after) {rule : Rule}
    (found : after.first? name key = some rule) (property : String) :
    rule.view property = ((before.first? name key).map (·.view property)).getD {} := by
  rcases grown.first?_cases found with old | ⟨missing, blank⟩
  · rw [old]
    rfl
  · rw [missing, Cascade.view_of_blank blank]
    rfl

end Sheet

namespace Catalog

variable {α : Type} {make : Rule → α} {catalog : Catalog α} {sheet after : Sheet} {key : String}
  {value : α}

/-- The views of a catalog depend on their rules alone. -/
def Views (catalog : Catalog α) (make : Rule → α) : Prop :=
  ∀ sheet index rule, sheet.rules[index]? = some rule → catalog.view sheet index = make rule

/-- Every view that is kept is that of the first rule with its key. -/
def Coherent (catalog : Catalog α) (make : Rule → α) (sheet : Sheet) : Prop :=
  ∀ key value, catalog.cached? key = some value →
    (sheet.first? catalog.ruleName key).map make = some value

/-- The sheet with a rule for a key, an empty one at the end if there was none. -/
def provide (catalog : Catalog α) (sheet : Sheet) (key : String) : Sheet :=
  if (sheet.first? catalog.ruleName key).isSome then sheet
  else sheet.push (catalog.missingRule key)

theorem prefix_provide (catalog : Catalog α) (sheet : Sheet) (key : String) :
    sheet.rules <+: (catalog.provide sheet key).rules := by
  unfold provide
  split
  · exact List.prefix_refl _
  · exact sheet.prefix_push _

private theorem isSelector_missingRule (catalog : Catalog α) (key : String) :
    (catalog.missingRule key).isSelector catalog.ruleName (some key) = true := by
  by_cases empty : key = "" <;>
    simp [missingRule, Rule.synthesize, Rule.isSelector, Rule.key, empty]

private theorem cached?_keep (catalog : Catalog α) (key other : String) (value : α) :
    (catalog.keep key value).cached? other =
      (catalog.cached? other).or (if key = other then some value else none) := by
  rw [cached?, cached?, keep, List.find?_append, Option.map_or]
  by_cases same : key = other <;> simp [same]

/-- A catalog stays coherent when rules are put at the end of the sheet. -/
theorem Coherent.mono (coherent : catalog.Coherent make sheet)
    (grown : sheet.rules <+: after.rules) : catalog.Coherent make after := by
  intro key value kept
  obtain ⟨rule, found, rfl⟩ := Option.map_eq_some_iff.mp (coherent key value kept)
  rw [Sheet.first?_of_prefix grown found]
  rfl

/-- The rule that backs a key: the first one with it, or else the one that is put at the end. -/
theorem exists_backing (catalog : Catalog α) (sheet : Sheet) (key : String) :
    ∃ index rule, (catalog.provide sheet key).rules[index]? = some rule ∧
      (catalog.provide sheet key).first? catalog.ruleName key = some rule ∧
      ((∃ rest, sheet.select catalog.ruleName (some key) = index :: rest ∧
          catalog.provide sheet key = sheet ∧
          (sheet.first? catalog.ruleName key).isNone = false) ∨
        sheet.select catalog.ruleName (some key) = [] ∧ index = sheet.rules.length ∧
          catalog.provide sheet key = sheet.push (catalog.missingRule key) ∧
          (sheet.first? catalog.ruleName key).isNone = true) := by
  rcases sheet.select_cases catalog.ruleName key with
    ⟨index, rest, rule, selected, here, found⟩ | ⟨selected, missing⟩
  · have there : catalog.provide sheet key = sheet := by rw [provide, found]; rfl
    rw [there]
    refine ⟨index, rule, here, found, .inl ⟨rest, selected, rfl, ?_⟩⟩
    rw [found]
    rfl
  · have there : catalog.provide sheet key = sheet.push (catalog.missingRule key) := by
      rw [provide, missing]
      rfl
    have found : (sheet.push (catalog.missingRule key)).first? catalog.ruleName key =
        some (catalog.missingRule key) := by
      rw [Sheet.first?, Sheet.push, List.find?_append, ← Sheet.first?, missing, Option.none_or,
        List.find?_singleton, catalog.isSelector_missingRule]
      rfl
    rw [there]
    refine ⟨sheet.rules.length, _, List.getElem?_concat_length, found, .inr ⟨selected, rfl, rfl, ?_⟩⟩
    rw [missing]
    rfl

/-- A catalog of the rules with a name whose kept views are up to date. -/
structure Sound (name : String) (make : Rule → α) (catalog : Catalog α) (sheet : Sheet) : Prop where
  named : catalog.ruleName = name
  views : catalog.Views make
  coherent : catalog.Coherent make sheet

/-- A view with its key is that of the first rule with the key. -/
def IsCurrent (name : String) (make : Rule → α) (sheet : Sheet) (entry : String × α) : Prop :=
  (sheet.first? name entry.1).map make = some entry.2

variable {name : String} {entry : String × α} {keys : List String}

theorem Sound.mono (sound : Sound name make catalog sheet) (grown : sheet.rules <+: after.rules) :
    Sound name make catalog after :=
  ⟨sound.named, sound.views, sound.coherent.mono grown⟩

theorem Sound.keep (sound : Sound name make catalog sheet)
    (current : IsCurrent name make sheet (key, value)) :
    Sound name make (catalog.keep key value) sheet := by
  refine ⟨sound.named, sound.views, fun other kept known => ?_⟩
  rw [cached?_keep] at known
  rcases Option.or_eq_some_iff.mp known with old | ⟨-, new⟩
  · exact sound.coherent other kept old
  · split at new
    · rename_i same
      cases new
      rw [← same, Catalog.keep, sound.named]
      exact current
    · cases new

private theorem IsCurrent.mono (current : IsCurrent name make sheet entry)
    (grown : sheet.rules <+: after.rules) : IsCurrent name make after entry := by
  obtain ⟨rule, found, own⟩ := Option.map_eq_some_iff.mp current
  rw [IsCurrent, Sheet.first?_of_prefix grown found, ← own]
  rfl

/-- What comes of consulting for a key: the view of the first rule with it, in a sheet that has one, and
the catalog that keeps it. -/
theorem consult_eq (sound : Sound name make catalog sheet) (key : String) :
    ∃ value, IsCurrent name make (catalog.provide sheet key) (key, value) ∧
      catalog.consult sheet key =
        ⟨value, if (catalog.cached? key).isSome then catalog else catalog.keep key value,
          catalog.provide sheet key, (sheet.first? name key).isNone⟩ := by
  obtain ⟨rfl, views, coherent⟩ := sound
  unfold consult IsCurrent
  cases kept : catalog.cached? key with
  | some value =>
    have backed := coherent key value kept
    obtain ⟨rule, found, -⟩ := Option.map_eq_some_iff.mp backed
    have there : catalog.provide sheet key = sheet := by rw [provide, found]; rfl
    exact ⟨value, by rw [there, backed], by rw [there, found]; rfl⟩
  | none =>
    obtain ⟨index, rule, here, found, cases⟩ := catalog.exists_backing sheet key
    refine ⟨make rule, by rw [found]; rfl, ?_⟩
    rw [← views _ index rule here]
    rcases cases with ⟨rest, selected, there, old⟩ | ⟨selected, rfl, there, new⟩
    · rw [selected, there, old]
      rfl
    · rw [selected, there, new]
      rfl

/-- A sound catalog, with the views that were asked for, after which the sheet has only grown. -/
structure Served (name : String) (make : Rule → α) (before : Sheet) (found : List (String × α))
    (catalog : Catalog α) (after : Sheet) : Prop extends Sound name make catalog after where
  grown : before.rules <+: after.rules
  current : ∀ entry ∈ found, IsCurrent name make after entry

theorem Sound.served (sound : Sound name make catalog sheet) :
    Served name make sheet [] catalog sheet :=
  ⟨sound, List.prefix_refl _, nofun⟩

theorem Served.append {first second : Sheet} {found others : List (String × α)}
    {catalog last : Catalog α} (early : Served name make sheet found catalog first)
    (late : Served name make first others last second) :
    Served name make sheet (found ++ others) last second where
  toSound := late.toSound
  grown := early.grown.trans late.grown
  current := List.forall_mem_append.mpr
    ⟨fun entry member => (early.current entry member).mono late.grown, late.current⟩

theorem Sound.consult (sound : Sound name make catalog sheet) (key : String) :
    Served name make sheet [(key, (catalog.consult sheet key).value)]
      (catalog.consult sheet key).catalog (catalog.consult sheet key).sheet := by
  obtain ⟨value, current, consulted⟩ := consult_eq sound key
  have grown := catalog.prefix_provide sheet key
  rw [consulted]
  refine ⟨?_, grown, List.forall_mem_singleton.mpr current⟩
  dsimp only
  split
  · exact sound.mono grown
  · exact (sound.mono grown).keep current

theorem Sound.consultAll (sound : Sound name make catalog sheet) (keys : List String) :
    Served name make sheet (catalog.consultAll sheet keys).1 (catalog.consultAll sheet keys).2.1
      (catalog.consultAll sheet keys).2.2 := by
  induction keys generalizing catalog sheet with
  | nil => exact sound.served
  | cons key keys ih => exact (sound.consult key).append (ih (sound.consult key).toSound)

/-- The sheet stays as it is where keys are asked for that have a rule. -/
theorem sheet_consultAll_of_backed (sound : Sound name make catalog sheet)
    (backed : ∀ key ∈ keys, (sheet.first? name key).isSome) :
    (catalog.consultAll sheet keys).2.2 = sheet := by
  induction keys generalizing catalog with
  | nil => rfl
  | cons key keys ih =>
    obtain ⟨own, others⟩ := List.forall_mem_cons.mp backed
    have same : (catalog.consult sheet key).sheet = sheet := by
      obtain ⟨_, -, consulted⟩ := consult_eq sound key
      rw [consulted]
      exact if_pos (sound.named ▸ own)
    have first := (sound.consult key).toSound
    rw [Catalog.consultAll]
    dsimp only
    rw [same] at first ⊢
    exact ih first others

theorem keys_consultAll (catalog : Catalog α) (sheet : Sheet) (keys : List String) :
    (catalog.consultAll sheet keys).1.map (·.1) = keys := by
  induction keys generalizing catalog sheet with
  | nil => rfl
  | cons key keys ih => exact congrArg (key :: ·) (ih _ _)

/-- The views of keys that have a rule are those of the first rules with them. -/
theorem values_consultAll (sound : Sound name make catalog sheet)
    (backed : ∀ key ∈ keys, (sheet.first? name key).isSome) :
    (catalog.consultAll sheet keys).1.map (·.2) =
      keys.filterMap fun key => (sheet.first? name key).map make := by
  have current := (sound.consultAll keys).current
  rw [sheet_consultAll_of_backed sound backed] at current
  have names := catalog.keys_consultAll sheet keys
  generalize (catalog.consultAll sheet keys).1 = found at current names ⊢
  rw [← names, List.filterMap_map, ← List.filterMap_eq_map]
  exact List.filterMap_congr fun entry member => (current entry member).symm

/-- A view that a sound catalog yields is that of a rule which says what the first rule with the key
said before, and nothing where there was none. -/
theorem Sound.exists_rule {α : Type} {make : Rule → α} {catalog : Catalog α}
    {apart name : String} {before after : Sheet} (sound : Sound name make catalog after)
    (grown : before.Grows apart after) (different : catalog.ruleName ≠ apart) (key : String) :
    ∃ rule : Rule, (catalog.consult after key).value = make rule ∧
      ∀ property, rule.view property =
        ((before.first? name key).map (·.view property)).getD {} := by
  have extended := grown.trans (catalog.grows_consult different after key)
  obtain ⟨value, current, consulted⟩ := consult_eq sound key
  rw [consulted] at extended ⊢
  obtain ⟨rule, found, own⟩ := Option.map_eq_some_iff.mp current
  exact ⟨rule, own.symm, extended.view_first? found⟩

end Catalog

end PackageSheet
