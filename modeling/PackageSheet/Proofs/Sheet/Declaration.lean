import Mathlib.Data.List.Forall2
import PackageSheet.Proofs.Sheet.Acceptance
import PackageSheet.Proofs.Sheet.Growth

/-!
Where the value of a property comes from. Rules are made of declarations, and a cascade of such
rules shows for a property the last value of the last declaration that has any, but the place of the
first declaration in the last rule that declares the property at all
(`Cascade.view_of_declarations`). The two are one declaration only if no other stands before it in
its rule, and none in a later rule (`Cascade.location_view_iff`). The rules of a text are made of
declarations (`Statement.exists_isMadeOf`).
-/

namespace PackageSheet

/-- A declaration of a property: its values, which may be none, and its place. -/
structure Declaration where
  name : String
  values : List String
  location : Location
deriving DecidableEq

namespace Declaration

def valuesOf (name : String) (ds : List Declaration) : List String :=
  (ds.filter (·.name == name)).flatMap (·.values)

def first? (name : String) (ds : List Declaration) : Option Declaration :=
  ds.find? (·.name == name)

variable {name : String} {ds front back : List Declaration} {d : Declaration}

theorem valuesOf_append :
    valuesOf name (front ++ back) = valuesOf name front ++ valuesOf name back := by
  simp [valuesOf]

theorem valuesOf_cons :
    valuesOf name (d :: ds) = (if d.name = name then d.values else []) ++ valuesOf name ds := by
  by_cases own : d.name = name <;> simp [valuesOf, own]

/-- Declarations give a property no value if those of it have none. -/
theorem valuesOf_eq_nil_iff : valuesOf name ds = [] ↔ ∀ d ∈ ds, d.name = name → d.values = [] := by
  simp [valuesOf]

theorem first?_append : first? name (front ++ back) = (first? name front).or (first? name back) :=
  List.find?_append

theorem first?_cons_of_name (own : d.name = name) : first? name (d :: ds) = some d := by
  simp [first?, own]

theorem first?_eq_none_iff : first? name ds = none ↔ ∀ d ∈ ds, d.name ≠ name := by
  simp [first?]

private theorem mem_of_first? (found : first? name ds = some d) : d ∈ ds ∧ d.name = name :=
  ⟨List.mem_of_find?_eq_some found, by simpa using List.find?_some found⟩

end Declaration

open Declaration

namespace Rule

variable {rule blank : Rule} {name other : String} {values : List String} {location : Location}
  {ds : List Declaration}

def declareAll (rule : Rule) (ds : List Declaration) : Rule :=
  ds.foldl (fun rule d => rule.declare d.name d.values d.location) rule

/-- A rule is made of declarations if it had no properties before them. -/
def IsMadeOf (rule : Rule) (ds : List Declaration) : Prop :=
  ∃ blank : Rule, blank.properties = [] ∧ rule = blank.declareAll ds

private theorem property?_declare :
    (rule.declare name values location).property? other =
      if name = other then
        some ((rule.property? name).elim ⟨name, values, location⟩
          fun p => { p with values := p.values ++ values })
      else rule.property? other := by
  unfold property? declare
  dsimp only
  induction rule.properties with
  | nil => by_cases same : name = other <;> simp [addToProperties, same]
  | cons p ps ih =>
    unfold addToProperties
    by_cases own : p.name = name
    · by_cases same : name = other <;> simp_all
    · have unlike : (p.name == name) = false := beq_false_of_ne own
      rw [if_neg (by simp [unlike]), List.find?_cons, List.find?_cons, List.find?_cons, ih]
      by_cases same : name = other
      · subst same
        simp [unlike]
      · simp [same]

private theorem property?_declareAll (empty : blank.properties = []) :
    (blank.declareAll ds).property? name =
      (first? name ds).map fun first => ⟨name, valuesOf name ds, first.location⟩ := by
  induction ds using List.reverseRecOn with
  | nil => exact Cascade.property?_of_blank empty name
  | append_singleton ds d ih =>
    have step : blank.declareAll (ds ++ [d]) =
        (blank.declareAll ds).declare d.name d.values d.location := List.foldl_append
    rw [step, property?_declare, first?_append, valuesOf_append, valuesOf_cons]
    by_cases own : d.name = name
    · rw [if_pos own, own, ih, first?_cons_of_name own]
      cases found : first? name ds with
      | none =>
        have none : valuesOf name ds = [] := valuesOf_eq_nil_iff.mpr fun e member same =>
          absurd same (first?_eq_none_iff.mp found e member)
        rw [none, if_pos rfl]
        simp [valuesOf]
      | some first =>
        rw [if_pos rfl]
        simp [valuesOf]
    · rw [if_neg own, if_neg own, ih]
      simp [first?, own, valuesOf]

theorem IsMadeOf.property? (made : rule.IsMadeOf ds) :
    rule.property? name =
      (first? name ds).map fun first => ⟨name, valuesOf name ds, first.location⟩ := by
  obtain ⟨blank, empty, rfl⟩ := made
  exact property?_declareAll empty

private theorem IsMadeOf.values_view (made : rule.IsMadeOf ds) :
    (rule.view name).values = valuesOf name ds := by
  rw [view, made.property?]
  cases found : first? name ds with
  | some first => rfl
  | none =>
    refine (valuesOf_eq_nil_iff.mpr fun e member same => ?_).symm
    exact absurd same (first?_eq_none_iff.mp found e member)

end Rule

namespace Cascade

variable {cascade : Cascade} {histories : List (List Declaration)} {name : String}

private theorem view_singleton (rule : Rule) (name : String) : view [rule] name = rule.view name := by
  rw [view, List.foldl_cons, List.foldl_nil, Rule.view]
  cases rule.property? name <;> rfl

private theorem location_view (cascade : Cascade) (name : String) :
    (view cascade name).location =
      (cascade.filterMap (·.property? name)).getLast?.map Property.location := by
  induction cascade using List.reverseRecOn with
  | nil => rfl
  | append_singleton front rule ih =>
    rw [List.filterMap_append, view, List.foldl_append, List.foldl_cons, List.foldl_nil]
    cases found : rule.property? name with
    | none =>
      have none : [rule].filterMap (·.property? name) = [] := by simp [found]
      rw [none, List.append_nil]
      exact ih
    | some p => simp [found]

private theorem values_of_declarations (name : String)
    (made : List.Forall₂ Rule.IsMadeOf cascade histories) :
    (view cascade name).values = histories.flatMap (valuesOf name) := by
  rw [values_view]
  induction made with
  | nil => rfl
  | cons own others ih => rw [List.flatMap_cons, List.flatMap_cons, own.values_view, ih]

/-- The place of a property in a cascade, by the declarations of its rules, is that of the first one
in the last rule with any. -/
theorem location_of_declarations (name : String)
    (made : List.Forall₂ Rule.IsMadeOf cascade histories) :
    (view cascade name).location =
      (histories.filterMap (first? name)).getLast?.map (·.location) := by
  have places : (cascade.filterMap (·.property? name)).map Property.location =
      (histories.filterMap (first? name)).map (·.location) := by
    induction made with
    | nil => rfl
    | @cons rule ds _ _ own others ih =>
      rw [List.filterMap_cons, List.filterMap_cons, own.property?]
      cases first? name ds with
      | none => exact ih
      | some first => exact congrArg (first.location :: ·) ih
  rw [location_view, ← List.getLast?_map, places, List.getLast?_map]

end Cascade

/-- The last declaration with values of a property, behind others in its rule and before the rules
that follow. -/
structure Supplies (name : String) (histories : List (List Declaration)) (front : List Declaration)
    (d : Declaration) (later : List (List Declaration)) : Prop where
  named : d.name = name
  valued : d.values ≠ []
  last : ∃ earlier back, histories = earlier ++ (front ++ d :: back) :: later ∧
    (∀ e ∈ back, e.name = name → e.values = []) ∧
    ∀ ds ∈ later, ∀ e ∈ ds, e.name = name → e.values = []

/-- No two declarations of a property have one place. -/
def ArePlacedApart (name : String) (histories : List (List Declaration)) : Prop :=
  histories.flatten.Pairwise fun d e => d.name = name → e.name = name → d.location ≠ e.location

/-- There are no declarations of a property before one in its rule, and none in the rules after it.
-/
def StandsAlone (name : String) (front : List Declaration) (later : List (List Declaration)) :
    Prop :=
  (∀ e ∈ front, e.name ≠ name) ∧ ∀ ds ∈ later, ∀ e ∈ ds, e.name ≠ name

private theorem exists_last {α : Type} {p : α → Prop} {xs : List α} (some : ∃ x ∈ xs, p x) :
    ∃ front x back, xs = front ++ x :: back ∧ p x ∧ ∀ y ∈ back, ¬ p y := by
  induction xs using List.reverseRecOn with
  | nil => simp at some
  | append_singleton xs y ih =>
    by_cases own : p y
    · exact ⟨xs, y, [], rfl, own, by simp⟩
    · have earlier : ∃ x ∈ xs, p x := by
        obtain ⟨x, member, holds⟩ := some
        rcases List.mem_append.mp member with inside | last
        · exact ⟨x, inside, holds⟩
        · rw [List.mem_singleton.mp last] at holds
          exact absurd holds own
      obtain ⟨front, x, back, rfl, holds, others⟩ := ih earlier
      refine ⟨front, x, back ++ [y], by simp, holds, ?_⟩
      rw [List.forall_mem_append]
      exact ⟨others, by simpa using own⟩

section Supplying

variable {name : String} {histories later : List (List Declaration)} {front : List Declaration}
  {d : Declaration}

private theorem exists_supplies (some : histories.flatMap (valuesOf name) ≠ []) :
    ∃ front d later, Supplies name histories front d later := by
  have valued : ∃ ds ∈ histories, valuesOf name ds ≠ [] := by
    by_contra none
    push Not at none
    exact some (List.flatMap_eq_nil_iff.mpr none)
  obtain ⟨earlier, ds, later, rfl, own, after⟩ := exists_last valued
  have giving : ∃ d ∈ ds, d.name = name ∧ d.values ≠ [] := by
    by_contra none
    push Not at none
    exact own (valuesOf_eq_nil_iff.mpr none)
  obtain ⟨front, d, back, rfl, ⟨named, valued⟩, behind⟩ := exists_last giving
  refine ⟨front, d, later, named, valued, earlier, back, rfl, ?_, ?_⟩
  · exact fun e member same => not_not.mp fun some => behind e member ⟨same, some⟩
  · exact fun ds member => valuesOf_eq_nil_iff.mp (not_not.mp (after ds member))

private theorem Supplies.getLast?_values (supplies : Supplies name histories front d later) :
    (histories.flatMap (valuesOf name)).getLast? = d.values.getLast? := by
  obtain ⟨named, valued, earlier, back, rfl, behind, after⟩ := supplies
  have none : valuesOf name back = [] := valuesOf_eq_nil_iff.mpr behind
  have nothing : later.flatMap (valuesOf name) = [] :=
    List.flatMap_eq_nil_iff.mpr fun ds member => valuesOf_eq_nil_iff.mpr (after ds member)
  rw [List.flatMap_append, List.flatMap_cons, nothing, List.append_nil, valuesOf_append,
    valuesOf_cons, if_pos named, none, List.append_nil, ← List.append_assoc]
  exact List.getLast?_append_of_ne_nil _ valued

private theorem Supplies.getLast?_first (supplies : Supplies name histories front d later)
    (alone : StandsAlone name front later) :
    (histories.filterMap (first? name)).getLast? = some d := by
  obtain ⟨named, -, earlier, back, rfl, -, -⟩ := supplies
  have none : later.filterMap (first? name) = [] :=
    List.filterMap_eq_nil_iff.mpr fun ds member => first?_eq_none_iff.mpr (alone.2 ds member)
  have first : first? name (front ++ d :: back) = some d := by
    rw [first?_append, first?_eq_none_iff.mpr alone.1, first?_cons_of_name named]
    rfl
  rw [List.filterMap_append, List.filterMap_cons_some first, none, List.getLast?_concat]

private theorem Supplies.standsAlone (supplies : Supplies name histories front d later)
    (apart : ArePlacedApart name histories)
    (placed : (histories.filterMap (first? name)).getLast?.map (·.location) = some d.location) :
    StandsAlone name front later := by
  obtain ⟨named, -, earlier, back, rfl, -, -⟩ := supplies
  obtain ⟨first, found, same⟩ := Option.map_eq_some_iff.mp placed
  rw [ArePlacedApart, List.flatten_append, List.flatten_cons] at apart
  obtain ⟨inside, -, across⟩ := List.pairwise_append.mp (List.pairwise_append.mp apart).2.1
  rw [List.append_cons, List.filterMap_append] at found
  -- A later rule that declares the property would give its place.
  have nothing : later.filterMap (first? name) = [] := by
    by_contra filled
    rw [List.getLast?_append_of_ne_nil _ filled] at found
    obtain ⟨ds, member, own⟩ := List.mem_filterMap.mp (List.mem_of_getLast? found)
    obtain ⟨within, called⟩ := mem_of_first? own
    have behind : first ∈ later.flatten := List.mem_flatten.mpr ⟨ds, member, within⟩
    exact across d (by simp) first behind named called same.symm
  refine ⟨?_, fun ds member => ?others⟩
  case others => exact first?_eq_none_iff.mp (List.filterMap_eq_nil_iff.mp nothing ds member)
  rw [nothing, List.append_nil, List.filterMap_append] at found
  -- So would a declaration in front.
  intro e member called
  obtain ⟨head, ahead⟩ : ∃ head, first? name front = some head :=
    Option.ne_none_iff_exists'.mp fun absent => first?_eq_none_iff.mp absent e member called
  have own : first? name (front ++ d :: back) = some head := by rw [first?_append, ahead]; rfl
  rw [List.filterMap_cons_some own, List.filterMap_nil, List.getLast?_concat] at found
  obtain rfl : head = first := Option.some.inj found
  obtain ⟨within, named'⟩ := mem_of_first? ahead
  exact (List.pairwise_append.mp inside).2.2 head within d List.mem_cons_self named' named same

end Supplying

/-- The value that a cascade shows for a property, and likewise a rule by itself, is the last one of
the last declaration that gives it any. The place shown with it is that of the first declaration in
the last rule with any, and so that of the declaration with the value if this one stands alone; if
declarations are placed apart, only then. -/
theorem Cascade.location_view_iff {cascade : Cascade} {histories : List (List Declaration)}
    (made : List.Forall₂ Rule.IsMadeOf cascade histories) (name : String) :
    (∀ rule ∈ cascade, rule.view name = view [rule] name) ∧
      (view cascade name).location =
        (histories.filterMap (first? name)).getLast?.map (·.location) ∧
      ∀ value, (view cascade name).value? = some value →
        ∃ front d later, Supplies name histories front d later ∧ d.values.getLast? = some value ∧
          (StandsAlone name front later → (view cascade name).location = some d.location) ∧
          (ArePlacedApart name histories → (view cascade name).location = some d.location →
            StandsAlone name front later) := by
  have values := values_of_declarations name made
  have place := location_of_declarations name made
  refine ⟨fun rule _ => (view_singleton rule name).symm, place, fun value shown => ?_⟩
  rw [PropertyView.value?, values] at shown
  have some : histories.flatMap (valuesOf name) ≠ [] := by
    intro none
    rw [none] at shown
    cases shown
  obtain ⟨front, d, later, supplies⟩ := exists_supplies some
  rw [supplies.getLast?_values] at shown
  refine ⟨front, d, later, supplies, shown, fun alone => ?_, fun apart same => ?_⟩
  · rw [place, supplies.getLast?_first alone]
    rfl
  · exact supplies.standsAlone apart (place.symm.trans same)

/-- Two rules that declare a version, the second one once with a value and once more without. -/
def versions : List (List Declaration) :=
  [[⟨"version", ["1.0"], ⟨none, 1, 11⟩⟩],
    [⟨"version", ["2.0"], ⟨none, 2, 11⟩⟩, ⟨"version", [], ⟨none, 2, 25⟩⟩]]

theorem Cascade.location_view_versions :
    let cascade := versions.map ({ name := "package" } : Rule).declareAll
    List.Forall₂ Rule.IsMadeOf cascade versions ∧ (view cascade "version").value? = some "2.0" ∧
      ∃ front d later, Supplies "version" versions front d later ∧ d.values.getLast? = some "2.0" ∧
        (StandsAlone "version" front later →
          (view cascade "version").location = some d.location) := by
  intro cascade
  have made : List.Forall₂ Rule.IsMadeOf cascade versions :=
    .cons ⟨{ name := "package" }, rfl, rfl⟩ (.cons ⟨{ name := "package" }, rfl, rfl⟩ .nil)
  have shown : (view cascade "version").value? = some "2.0" := by decide +kernel
  obtain ⟨-, -, supplied⟩ := Cascade.location_view_iff made "version"
  obtain ⟨front, d, later, supplies, last, alone, -⟩ := supplied "2.0" shown
  exact ⟨made, shown, front, d, later, supplies, last, alone⟩

/-- A rule that declares a version twice. -/
def repeated : List Declaration :=
  [⟨"version", ["1.0"], ⟨none, 1, 11⟩⟩, ⟨"version", ["2.0"], ⟨none, 1, 25⟩⟩]

/-- The place of a property is not always that of the declaration with its value: declared twice in
a rule, it has the value of the second declaration and the place of the first. -/
theorem Cascade.location_elsewhere :
    ¬ ∀ cascade histories name front d later, List.Forall₂ Rule.IsMadeOf cascade histories →
      Supplies name histories front d later → (view cascade name).location = some d.location := by
  intro always
  have supplies : Supplies "version" [repeated] [⟨"version", ["1.0"], ⟨none, 1, 11⟩⟩]
      ⟨"version", ["2.0"], ⟨none, 1, 25⟩⟩ [] :=
    ⟨rfl, by decide, [], [], rfl, by simp, by simp⟩
  have place := always [({ name := "package" } : Rule).declareAll repeated] _ _ _ _ _
    (.cons ⟨{ name := "package" }, rfl, rfl⟩ .nil) supplies
  exact absurd place (by decide +kernel)

namespace Reading

variable {reading : Reading} {declared found : PackageSheet.Rule} {start name : Token}
  {tokens : List Token}

private theorem exists_declareAll_property (reading : Reading) (declared : PackageSheet.Rule)
    (name : Token) (tokens : List Token) :
    ∃ ds, (reading.property declared name tokens).result = declared.declareAll ds := by
  unfold property
  split
  · exact ⟨[], rfl⟩
  · refine ⟨[⟨name.text, (reading.values (tokens.drop 1)).result, reading.locate name⟩], ?_⟩
    dsimp only
    split
    · rfl
    · split <;> rfl

private theorem exists_declareAll_body (reading : Reading) (declared : PackageSheet.Rule)
    (tokens : List Token) :
    ∃ ds, (body reading declared tokens).result = declared.declareAll ds := by
  fun_induction body reading declared tokens with
  | case1 => exact ⟨[], rfl⟩
  | case2 => exact ⟨[], rfl⟩
  | case3 declared t ts kind ih => exact ih
  | case4 declared t ts kind read ih =>
    obtain ⟨first, own⟩ := exists_declareAll_property reading declared t ts
    obtain ⟨others, later⟩ := ih
    refine ⟨first ++ others, later.trans ?_⟩
    rw [PackageSheet.Rule.declareAll, PackageSheet.Rule.declareAll, List.foldl_append]
    exact congrArg (List.foldl _ · others) own
  | case5 declared t ts _ _ _ ih => exact ih

private theorem properties_selectorParts
    (read : (selectorParts reading declared tokens).result = some found) :
    found.properties = declared.properties := by
  fun_induction selectorParts reading declared tokens with
  | case2 _ _ _ _ _ _ ih | case5 _ _ _ _ _ _ ih => exact ih read
  | case9 _ _ _ _ _ _ _ ih => exact ih read
  | case8 => exact congrArg PackageSheet.Rule.properties (Option.some.inj read).symm
  | _ => cases read

private theorem exists_isMadeOf_rule (read : (reading.rule start tokens).result = some found) :
    ∃ ds, found.IsMadeOf ds := by
  unfold Reading.rule at read
  dsimp only at read
  split at read
  · rename_i none
    rw [none] at read
    cases read
  · rename_i blank selected
    have empty : blank.properties = [] := by
      unfold selector at selected
      dsimp only at selected
      split at selected <;> exact properties_selectorParts selected
    obtain ⟨ds, made⟩ :=
      exists_declareAll_body reading blank (reading.selector start tokens).rest
    exact ⟨ds, blank, empty, (Option.some.inj read).symm.trans made⟩

private theorem exists_isMadeOf_statements (member : .rule found ∈ (statements reading tokens).result) :
    ∃ ds, found.IsMadeOf ds := by
  fun_induction statements reading tokens with
  | case1 => cases member
  | case2 t ts kind ih => exact ih member
  | case3 t ts kind read ih =>
    rcases List.mem_append.mp member with first | later
    · have none : (reading.directive t ts).result ≠ some (.rule found) := by
        unfold directive
        dsimp only
        split
        · simp
        · split <;> simp [Outcome.map]
      exact absurd (Option.mem_toList.mp first) none
    · exact ih later
  | case4 t ts _ _ read ih =>
    rcases List.mem_append.mp member with first | later
    · obtain ⟨rule, own, same⟩ := Option.map_eq_some_iff.mp (Option.mem_toList.mp first)
      obtain rfl := Statement.rule.inj same
      exact exists_isMadeOf_rule own
    · exact ih later

end Reading

/-- Every rule of a text is made of declarations. -/
theorem Statement.exists_isMadeOf {text : String} {file : Option Path} {rule : Rule}
    (member : .rule rule ∈ (Statement.ofText text file).1) : ∃ ds, rule.IsMadeOf ds :=
  Reading.exists_isMadeOf_statements member

end PackageSheet
