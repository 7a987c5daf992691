import PackageSheet.Proofs.Template.Mention
import PackageSheet.Proofs.Template.Nesting

/-!
What expansion reports, against the graph of names. Everything reported has its reason in a name
that references lead to (`mem_problems_expand`). Conversely every name without a value that they
lead to is reported (`unresolved_mem_problems_expand`), though expansion never enters a name that is
active: some path to it has no name twice. And if nothing circular is reported, then every chain of
references ends, so they lead to no circle (`exists_circular_mem_problems_expand`).
-/

namespace PackageSheet.Scope

open Template

variable {scope : Scope} {active : List (List Char)} {texts : List Part} {expansion : Expansion}
  {chains : List (List (List Char))} {name other body : List Char} {value : String}
  {problem : Problem}

theorem mem_problems_append {first second : Expansion} :
    problem ∈ (first.append second).problems ↔
      problem ∈ first.problems ∨ problem ∈ second.problems :=
  List.mem_append

/-- The reasons for which a name is reported: references lead from it back to itself, or it has no
value. -/
inductive Reason (scope : Scope) (name : List Char) : Problem → Prop where
  | circular (back : scope.OnCircle name) :
      Reason scope name (.circularReference (String.ofList name))
  | unresolved (missing : scope.resolve? name = none) :
      Reason scope name (.unresolvedReference (String.ofList name))

theorem refers_of_mem_parts (found : scope.resolve? name = some value)
    (member : .reference body ∈ parts value.toList) : scope.Refers name (Text.trim body) :=
  ⟨value, found, mentions_of_mem_parts member⟩

/-- Whatever is reported has its reason in a name that some reference of the text leads to. Active
names are those from which references led here, so one that is met again lies on a circle. -/
theorem Expands.exists_reason (derivation : Expands scope active texts expansion chains)
    (above : ∀ name ∈ active, ∀ body, .reference body ∈ texts →
      Relation.TransGen scope.Refers name (Text.trim body))
    (reported : problem ∈ expansion.problems) :
    ∃ body name, .reference body ∈ texts ∧
      Relation.ReflTransGen scope.Refers (Text.trim body) name ∧ scope.Reason name problem := by
  -- the same for what stands behind the first part
  have onward {part : Part} {rest : List Part}
      (found : ∃ body name, .reference body ∈ rest ∧
        Relation.ReflTransGen scope.Refers (Text.trim body) name ∧ scope.Reason name problem) :
      ∃ body name, .reference body ∈ part :: rest ∧
        Relation.ReflTransGen scope.Refers (Text.trim body) name ∧ scope.Reason name problem := by
    obtain ⟨body, name, member, found⟩ := found
    exact ⟨body, name, .tail _ member, found⟩
  induction derivation with
  | nil => cases reported
  | char rest ih =>
    refine onward (ih (fun name met body member => above name met body (.tail _ member)) ?_)
    exact (mem_problems_append.mp reported).resolve_left List.not_mem_nil
  | @active active body texts expansion chains met rest ih =>
    rcases mem_problems_append.mp reported with here | later
    · obtain rfl := List.mem_singleton.mp here
      have back := above _ met body List.mem_cons_self
      exact ⟨body, _, List.mem_cons_self, .refl, .circular back⟩
    · exact onward (ih (fun name met body member => above name met body (.tail _ member)) later)
  | @unresolved active body texts expansion chains new missing rest ih =>
    rcases mem_problems_append.mp reported with here | later
    · obtain rfl := List.mem_singleton.mp here
      rw [← resolve?_trim] at missing
      exact ⟨body, _, List.mem_cons_self, .refl, .unresolved missing⟩
    · exact onward (ih (fun name met body member => above name met body (.tail _ member)) later)
  | @resolved active body value texts _ _ nested chains new found within rest inside after =>
    rw [← resolve?_trim] at found
    rcases mem_problems_append.mp reported with deeper | later
    · have longer : ∀ name ∈ Text.trim body :: active, ∀ inner,
          .reference inner ∈ parts value.toList →
            Relation.TransGen scope.Refers name (Text.trim inner) := by
        intro name met inner member
        have edge := refers_of_mem_parts found member
        rcases List.mem_cons.mp met with rfl | met
        · exact .single edge
        · exact (above name met body List.mem_cons_self).tail edge
      obtain ⟨inner, name, member, path, reason⟩ := inside longer deeper
      exact ⟨body, name, List.mem_cons_self, path.head (refers_of_mem_parts found member), reason⟩
    · exact onward (after (fun name met body member => above name met body (.tail _ member)) later)

private theorem exists_refers_of_path {avoided : List Char → Prop}
    (path : Relation.ReflTransGen (fun a b => scope.Refers a b ∧ ¬ avoided b) name other)
    (different : other ≠ name) :
    ∃ next, scope.Refers name next ∧ ¬ avoided next ∧ next ≠ name ∧
      Relation.ReflTransGen (fun a b => scope.Refers a b ∧ ¬ (b = name ∨ avoided b))
        next other := by
  induction path with
  | refl => exact absurd rfl different
  | @tail last other path edge ih =>
    by_cases same : last = name
    · subst same
      exact ⟨other, edge.1, edge.2, different, .refl⟩
    · obtain ⟨next, refers, free, apart, onward⟩ := ih same
      exact ⟨next, refers, free, apart, onward.tail ⟨edge.1, not_or.mpr ⟨different, edge.2⟩⟩⟩

/-- A name without a value is reported if a path leads to it on which no name is active. The path is
entered behind the last time it comes to its first name, so it stays free inside of that one. -/
theorem Expands.unresolved_mem (derivation : Expands scope active texts expansion chains)
    (member : .reference body ∈ texts) (free : Text.trim body ∉ active)
    (path : Relation.ReflTransGen (fun a b => scope.Refers a b ∧ b ∉ active) (Text.trim body) name)
    (missing : scope.resolve? name = none) :
    .unresolvedReference (String.ofList name) ∈ expansion.problems := by
  induction derivation generalizing body with
  | nil => cases member
  | char rest ih =>
    refine mem_problems_append.mpr (.inr (ih ?_ free path))
    exact (List.mem_cons.mp member).resolve_left (by simp)
  | active met rest ih =>
    rcases List.mem_cons.mp member with same | member
    · cases same
      exact absurd met free
    · exact mem_problems_append.mpr (.inr (ih member free path))
  | @unresolved active first texts expansion chains new absent rest ih =>
    rcases List.mem_cons.mp member with same | member
    · cases same
      have ends : name = Text.trim first := by
        rcases path.cases_head with same | ⟨next, ⟨⟨value, found, -⟩, -⟩, -⟩
        · exact same.symm
        · rw [resolve?_trim, absent] at found
          cases found
      exact mem_problems_append.mpr (.inl (by simp [ends]))
    · exact mem_problems_append.mpr (.inr (ih member free path))
  | @resolved active first value texts _ _ nested chains new found within rest inside after =>
    rcases List.mem_cons.mp member with same | member
    · cases same
      have different : name ≠ Text.trim first := by
        rintro rfl
        rw [resolve?_trim, found] at missing
        cases missing
      obtain ⟨next, ⟨own, held, mention⟩, clear, apart, onward⟩ :=
        exists_refers_of_path path different
      rw [resolve?_trim, found] at held
      cases held
      obtain ⟨inner, member, rfl⟩ := mentions_iff.mp mention
      refine mem_problems_append.mpr (.inl (inside member ?_ ?_))
      · simp [apart, clear]
      · simpa only [List.mem_cons] using onward
    · exact mem_problems_append.mpr (.inr (after member free path))

/-- If nothing circular is reported, then every chain of references from the text ends. -/
theorem Expands.acc (derivation : Expands scope active texts expansion chains)
    (straight : ∀ name, .circularReference name ∉ expansion.problems)
    (member : .reference body ∈ texts) :
    Acc (fun inner outer => scope.Refers outer inner) (Text.trim body) := by
  induction derivation generalizing body with
  | nil => cases member
  | char rest ih =>
    refine ih (fun name met => straight name (mem_problems_append.mpr (.inr met))) ?_
    exact (List.mem_cons.mp member).resolve_left (by simp)
  | active met rest ih =>
    exact absurd (mem_problems_append.mpr (.inl (List.mem_singleton_self _))) (straight _)
  | unresolved new absent rest ih =>
    rcases List.mem_cons.mp member with same | member
    · cases same
      refine Acc.intro _ fun inner edge => ?_
      obtain ⟨value, found, -⟩ := edge
      rw [resolve?_trim, absent] at found
      cases found
    · exact ih (fun name met => straight name (mem_problems_append.mpr (.inr met))) member
  | resolved new found within rest inside after =>
    rcases List.mem_cons.mp member with same | member
    · cases same
      refine Acc.intro _ fun inner edge => ?_
      obtain ⟨value, held, mention⟩ := edge
      rw [resolve?_trim, found] at held
      cases held
      obtain ⟨body, member, rfl⟩ := mentions_iff.mp mention
      exact inside (fun name met => straight name (mem_problems_append.mpr (.inl met))) member
    · exact after (fun name met => straight name (mem_problems_append.mpr (.inr met))) member

private theorem not_onCircle_of_acc (ends : Acc (fun inner outer => scope.Refers outer inner) name)
    (path : Relation.ReflTransGen scope.Refers name other) : ¬ scope.OnCircle other := by
  induction ends with
  | intro name _ ih =>
    intro circle
    rcases path.cases_head with rfl | ⟨next, edge, onward⟩
    · obtain ⟨next, edge, back⟩ := Relation.TransGen.head'_iff.mp circle
      exact ih next edge back circle
    · exact ih next edge onward circle

/-- Whatever is reported has its reason in a name that references lead to. -/
theorem mem_problems_expand {text : String} (reported : problem ∈ (scope.expand text).problems) :
    ∃ name, scope.Leads text.toList name ∧ scope.Reason name problem := by
  obtain ⟨chains, derivation⟩ := scope.exists_expands [] (parts text.toList)
  obtain ⟨body, name, member, path, reason⟩ :=
    derivation.exists_reason (List.forall_mem_nil _) reported
  exact ⟨name, ⟨_, mentions_of_mem_parts member, path⟩, reason⟩

/-- References of a text lead to names that have a value and lie on no circle, and to no others. -/
def Resolvable (scope : Scope) (text : List Char) : Prop :=
  ∀ name, scope.Leads text name → (scope.resolve? name).isSome ∧ ¬ scope.OnCircle name

theorem Resolvable.problems_eq_nil {text : String} (resolvable : scope.Resolvable text.toList) :
    (scope.expand text).problems = [] := by
  refine List.eq_nil_iff_forall_not_mem.mpr fun problem reported => ?_
  obtain ⟨name, leads, reason⟩ := mem_problems_expand reported
  obtain ⟨valued, straight⟩ := resolvable name leads
  cases reason with
  | circular back => exact straight back
  | unresolved missing =>
    rw [missing] at valued
    cases valued

/-- A reference to a value that mentions nothing is resolvable. -/
theorem resolvable_of_plain (closing : '\x7d' ∉ body) (found : scope.resolve? body = some value)
    (plain : '\x7d' ∉ value.toList) : scope.Resolvable (opening ++ body ++ ['\x7d']) := by
  have ends (other : List Char) : ¬ scope.Refers (Text.trim body) other := by
    rintro ⟨own, held, mention⟩
    rw [resolve?_trim, found] at held
    cases held
    exact plain mention.closed
  rintro name ⟨root, mention, path⟩
  have only : parts (opening ++ body ++ ['\x7d']) = [.reference body] := by
    have parted := @parts_append [] body [] (by decide) closing
    rwa [parts] at parted
  rw [mentions_iff, only] at mention
  obtain ⟨_, member, rfl⟩ := mention
  cases List.mem_singleton.mp member
  rcases path.cases_head with rfl | ⟨next, edge, -⟩
  · refine ⟨by rw [resolve?_trim, found]; rfl, fun circle => ?_⟩
    obtain ⟨next, edge, -⟩ := Relation.TransGen.head'_iff.mp circle
    exact ends next edge
  · exact absurd edge (ends next)

/-- Every name without a value that references lead to is reported. -/
theorem unresolved_mem_problems_expand {text : String} (leads : scope.Leads text.toList name)
    (missing : scope.resolve? name = none) :
    .unresolvedReference (String.ofList name) ∈ (scope.expand text).problems := by
  obtain ⟨root, mention, path⟩ := leads
  obtain ⟨body, member, rfl⟩ := mentions_iff.mp mention
  obtain ⟨chains, derivation⟩ := scope.exists_expands [] (parts text.toList)
  refine derivation.unresolved_mem member (List.not_mem_nil) ?_ missing
  exact Relation.ReflTransGen.mono (fun a b edge => ⟨edge, List.not_mem_nil⟩) _ _ path

/-- If references lead to a circle, then something circular is reported. -/
theorem exists_circular_mem_problems_expand {text : String}
    (leads : scope.Leads text.toList name) (circle : scope.OnCircle name) :
    ∃ other, .circularReference other ∈ (scope.expand text).problems := by
  obtain ⟨root, mention, path⟩ := leads
  obtain ⟨body, member, rfl⟩ := mentions_iff.mp mention
  obtain ⟨chains, derivation⟩ := scope.exists_expands [] (parts text.toList)
  by_contra straight
  have ends := derivation.acc (not_exists.mp straight) member
  exact not_onCircle_of_acc ends path circle

end PackageSheet.Scope
