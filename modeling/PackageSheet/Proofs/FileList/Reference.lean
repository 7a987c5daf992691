import PackageSheet.FileList.Recipe
import PackageSheet.Proofs.Template.Nesting
import Mathlib.Data.Fintype.Card
import Mathlib.Data.Set.Finite.Basic
import Mathlib.Logic.Relation

/-!
The reference graph of a sheet. Its nodes are the file lists that exactly one rule defines, and a
list refers to those that its include and exclude tokens name. A name with no rule or with several
is no node, so no path leads through it.
-/

namespace PackageSheet

/-- The texts by which a recipe can name other lists. -/
def Recipe.references (recipe : Recipe) : List String :=
  (recipe.includes ++ recipe.excludes).map (·.value)

namespace Site

/-- The recipe of a list that exactly one rule defines. -/
def only? (site : Site) (name : String) : Option Recipe :=
  match site.recipes name with
  | [recipe] => some recipe
  | _ => none

/-- A list refers to another if one of its tokens names it and both are defined by one rule. -/
def Refers (site : Site) (name other : String) : Prop :=
  (∃ recipe, site.only? name = some recipe ∧ other ∈ recipe.references) ∧
    (site.only? other).isSome

instance (site : Site) (name other : String) : Decidable (site.Refers name other) :=
  decidable_of_iff
    (other ∈ ((site.only? name).map Recipe.references).getD [] ∧ (site.only? other).isSome) <| by
      cases found : site.only? name <;> simp [Refers, found]

/-- A chain of references leads from one list to another, perhaps an empty one. -/
def Reaches (site : Site) : String → String → Prop :=
  Relation.ReflTransGen site.Refers

/-- References lead from a list back to itself. -/
def OnCircle (site : Site) (name : String) : Prop :=
  Relation.TransGen site.Refers name name

/-- No list lies on a circle. -/
def Acyclic (site : Site) : Prop :=
  ∀ name, ¬ site.OnCircle name

/-- Two lists reach each other: they lie in one strongly connected component. -/
def Together (site : Site) (name other : String) : Prop :=
  site.Reaches name other ∧ site.Reaches other name

/-- The component of a list is a single ring: each of its lists refers to exactly one of them. -/
def IsRing (site : Site) (name : String) : Prop :=
  site.OnCircle name ∧
    ∀ member, site.Together name member →
      ∃! next, site.Together name next ∧ site.Refers member next

variable {site : Site} {name other third : String} {recipe : Recipe}

theorem only?_eq_some : site.only? name = some recipe ↔ site.recipes name = [recipe] := by
  unfold only?
  split
  · rename_i found
    simp [found]
  · rename_i several
    exact iff_of_false (Option.some_ne_none recipe).symm (several recipe)

theorem isSome_only?_iff : (site.only? name).isSome ↔ (site.recipes name).length = 1 := by
  rw [Option.isSome_iff_exists, List.length_eq_one_iff]
  exact exists_congr fun _ => only?_eq_some

theorem name_of_mem_recipes (h : recipe ∈ site.recipes name) : recipe.name = name := by
  obtain ⟨rule, selected, rfl⟩ := List.mem_map.mp h
  have matching := (List.mem_filter.mp selected).2
  simp only [Rule.isSelector, Option.getD_some, Bool.and_eq_true, beq_iff_eq] at matching
  exact matching.2

theorem mem_recipes_of_only? (h : site.only? name = some recipe) :
    recipe ∈ site.recipes name := by
  rw [only?_eq_some.mp h]
  exact List.mem_singleton_self recipe

theorem Refers.unique (edge : site.Refers name other) : (site.only? other).isSome :=
  edge.2

theorem Refers.mem_references (edge : site.Refers name other)
    (found : site.only? name = some recipe) : other ∈ recipe.references := by
  obtain ⟨⟨own, same, member⟩, -⟩ := edge
  rw [found] at same
  exact Option.some.inj same ▸ member

theorem mem_references_recipe {rule : Rule} :
    other ∈ (site.recipe rule).references ↔
      ∃ raw ∈ (rule.view "include").values ++ (rule.view "exclude").values,
        (site.expand raw (some rule.location)).value = other := by
  simp [Recipe.references, recipe, tokens, or_and_right, exists_or]

/-- An edge comes from a rule of the sheet, of which a token expands to the other name. -/
theorem Refers.exists_rule (edge : site.Refers name other) :
    ∃ rule ∈ site.scope.sheet.rules, rule.key = name ∧
      ∃ raw ∈ (rule.view "include").values ++ (rule.view "exclude").values,
        (site.expand raw (some rule.location)).value = other := by
  obtain ⟨⟨recipe, found, member⟩, -⟩ := edge
  have own := mem_recipes_of_only? found
  obtain ⟨rule, selected, rfl⟩ := List.mem_map.mp own
  exact ⟨rule, (List.mem_filter.mp selected).1, name_of_mem_recipes own,
    mem_references_recipe.mp member⟩

/-- A token without a dollar sign names the list that it spells. -/
theorem value_expand {text : String} (bare : '$' ∉ text.toList) (location : Option Location) :
    (site.expand text location).value = text := by
  simp [expand, Scope.expand_of_not_mem bare, Expansion.string]

theorem OnCircle.of_refers (edge : site.Refers name other) (back : site.Reaches other name) :
    site.OnCircle other :=
  Relation.TransGen.tail' back edge

theorem OnCircle.unique (circle : site.OnCircle name) : (site.only? name).isSome := by
  obtain ⟨last, -, edge⟩ := Relation.TransGen.tail'_iff.mp circle
  exact edge.unique

theorem Reaches.unique (reached : site.Reaches name other) (last : (site.only? other).isSome) :
    (site.only? name).isSome := by
  rcases Relation.ReflTransGen.cases_head reached with rfl | ⟨next, edge, -⟩
  · exact last
  · obtain ⟨⟨recipe, found, -⟩, -⟩ := edge
    simp [found]

theorem Together.symm (h : site.Together name other) : site.Together other name :=
  ⟨h.2, h.1⟩

theorem Together.trans (first : site.Together name other) (second : site.Together other third) :
    site.Together name third :=
  ⟨first.1.trans second.1, second.2.trans first.2⟩

theorem finite_only? (site : Site) : Finite { name // (site.only? name).isSome } := by
  have keys : { name | (site.only? name).isSome }.Finite := by
    refine (site.scope.sheet.rules.map Rule.key).toFinset.finite_toSet.subset ?_
    intro name unique
    obtain ⟨recipe, found⟩ := Option.isSome_iff_exists.mp unique
    have own := mem_recipes_of_only? found
    obtain ⟨rule, selected, rfl⟩ := List.mem_map.mp own
    have known : name ∈ site.scope.sheet.rules.map Rule.key :=
      List.mem_map.mpr ⟨rule, (List.mem_filter.mp selected).1, name_of_mem_recipes own⟩
    simpa using known
  exact keys.to_subtype

theorem Together.onCircle (together : site.Together name other) (circle : site.OnCircle name) :
    site.OnCircle other :=
  Relation.TransGen.trans_right together.2 (circle.trans_left together.1)

private theorem IsRing.unique (ring : site.IsRing name) (together : site.Together name other) :
    (site.only? other).isSome := by
  obtain ⟨next, ⟨-, ⟨recipe, found, -⟩, -⟩, -⟩ := ring.2 other together
  simp [found]

/-- No two lists of a ring refer to the same one. The successor in the ring has a value everywhere
in it, and the ring is finite. -/
theorem IsRing.eq_of_refers (ring : site.IsRing name) {first second next : String}
    (one : site.Together name first) (two : site.Together name second)
    (inside : site.Together name next) (edge : site.Refers first next)
    (other : site.Refers second next) : first = second := by
  have := finite_only? site
  have : Finite { member // site.Together name member } :=
    Finite.of_injective
      (fun member => (⟨member.1, ring.unique member.2⟩ : { name // (site.only? name).isSome }))
      fun _ _ same => Subtype.ext (Subtype.mk.inj same)
  choose turn turned only using ring.2
  let successor (member : { member // site.Together name member }) :
      { member // site.Together name member } :=
    ⟨turn member.1 member.2, (turned member.1 member.2).1⟩
  have onto : Function.Surjective successor := by
    rintro ⟨member, together⟩
    obtain ⟨before, reached, edge⟩ :=
      Relation.TransGen.tail'_iff.mp (together.onCircle ring.1)
    have own : site.Together name before :=
      ⟨together.1.trans reached, .head edge together.2⟩
    exact ⟨⟨before, own⟩, Subtype.ext (only before own member ⟨together, edge⟩).symm⟩
  have injective := Finite.injective_iff_surjective.mpr onto
  have same : successor ⟨first, one⟩ = successor ⟨second, two⟩ :=
    Subtype.ext ((only first one next ⟨inside, edge⟩).symm.trans
      (only second two next ⟨inside, other⟩))
  exact congrArg Subtype.val (injective same)

/-- Without circles there is no endless chain of references, as there are finitely many lists. -/
theorem Acyclic.wellFounded (acyclic : site.Acyclic) :
    WellFounded fun other name => site.Refers name other := by
  have := finite_only? site
  let after (a b : { name // (site.only? name).isSome }) : Prop :=
    Relation.TransGen site.Refers b.1 a.1
  have : IsTrans _ after := ⟨fun _ _ _ first second => second.trans first⟩
  have : Std.Irrefl after := ⟨fun a => acyclic a.1⟩
  have founded : WellFounded after := Finite.wellFounded_of_trans_of_irrefl after
  have nodes (a : { name // (site.only? name).isSome }) :
      Acc (fun other name => site.Refers name other) a.1 := by
    induction a using founded.induction with
    | _ a ih =>
      constructor
      intro other edge
      exact ih ⟨other, edge.unique⟩ (.single edge)
  constructor
  intro name
  constructor
  intro other edge
  exact nodes ⟨other, edge.unique⟩

end Site

end PackageSheet
