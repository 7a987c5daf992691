import PackageSheet.Template.Expansion

/-!
Expansion as a derivation. `Scope.Expands` tells how a text is expanded without a measure that makes
it end: a reference to an active name and one without a value stay as they are, and the value of any
other one is expanded in turn while its name is active. Each text has exactly one finite derivation
(`exists_expands`, `Expands.eq`), and the names that are active together are different fragments of
the text and of the values of the scope (`Expands.chain_nodup`, `Expands.chain_known`).
-/

namespace PackageSheet.Scope

open Template

/-- How the parts of a text are expanded while some names are active. The last index lists the
active names of every expansion that is begun on the way, the innermost name first. -/
inductive Expands (scope : Scope) :
    List (List Char) → List Part → Expansion → List (List (List Char)) → Prop where
  | nil {active : List (List Char)} : Expands scope active [] {} []
  | char {active : List (List Char)} {c : Char} {texts : List Part} {expansion : Expansion}
      {chains : List (List (List Char))} (rest : Expands scope active texts expansion chains) :
      Expands scope active (.char c :: texts) (Expansion.append ⟨[c], []⟩ expansion) chains
  | active {active : List (List Char)} {body : List Char} {texts : List Part}
      {expansion : Expansion} {chains : List (List (List Char))}
      (member : Text.trim body ∈ active) (rest : Expands scope active texts expansion chains) :
      Expands scope active (.reference body :: texts)
        (Expansion.append
          ⟨(Part.reference body).text, [.circularReference (String.ofList (Text.trim body))]⟩
          expansion)
        chains
  | unresolved {active : List (List Char)} {body : List Char} {texts : List Part}
      {expansion : Expansion} {chains : List (List (List Char))}
      (new : Text.trim body ∉ active) (missing : scope.resolve? body = none)
      (rest : Expands scope active texts expansion chains) :
      Expands scope active (.reference body :: texts)
        (Expansion.append
          ⟨(Part.reference body).text, [.unresolvedReference (String.ofList (Text.trim body))]⟩
          expansion)
        chains
  | resolved {active : List (List Char)} {body : List Char} {value : String} {texts : List Part}
      {inner expansion : Expansion} {nested chains : List (List (List Char))}
      (new : Text.trim body ∉ active) (found : scope.resolve? body = some value)
      (within : Expands scope (Text.trim body :: active) (parts value.toList) inner nested)
      (rest : Expands scope active texts expansion chains) :
      Expands scope active (.reference body :: texts) (inner.append expansion)
        ((Text.trim body :: active) :: nested ++ chains)

variable {scope : Scope} {active : List (List Char)} {body : List Char} {texts : List Part}
  {expansion : Expansion} {chains : List (List (List Char))} {value : String}

theorem Expands.of_not_mem {cs : List Char} (bare : '$' ∉ cs) :
    Expands scope active (parts cs) ⟨cs, []⟩ [] := by
  rw [parts_of_not_mem bare]
  clear bare
  induction cs with
  | nil => exact .nil
  | cons c cs ih => exact .char ih

theorem expandParts_nil : scope.expandParts active [] = {} := by
  rw [expandParts]

theorem expandParts_char (c : Char) :
    scope.expandParts active (.char c :: texts) =
      Expansion.append ⟨[c], []⟩ (scope.expandParts active texts) := by
  rw [expandParts]

theorem expandParts_active (member : Text.trim body ∈ active) :
    scope.expandParts active (.reference body :: texts) =
      Expansion.append
        ⟨(Part.reference body).text, [.circularReference (String.ofList (Text.trim body))]⟩
        (scope.expandParts active texts) := by
  rw [expandParts]
  simp [member]

theorem expandParts_unresolved (new : Text.trim body ∉ active)
    (missing : scope.resolve? body = none) :
    scope.expandParts active (.reference body :: texts) =
      Expansion.append
        ⟨(Part.reference body).text, [.unresolvedReference (String.ofList (Text.trim body))]⟩
        (scope.expandParts active texts) := by
  rw [expandParts]
  simp only [new, dite_false]
  split
  · rename_i found
    rw [missing] at found
    cases found
  · rfl

theorem expandParts_resolved (new : Text.trim body ∉ active)
    (found : scope.resolve? body = some value) :
    scope.expandParts active (.reference body :: texts) =
      (scope.expandParts (Text.trim body :: active) (parts value.toList)).append
        (scope.expandParts active texts) := by
  rw [expandParts]
  simp only [new, dite_false]
  split
  · rename_i other same
    rw [found] at same
    cases same
    rfl
  · rename_i missing
    rw [missing] at found
    cases found

/-- Every text has a derivation. The induction is the one by which expansion ends: a nested one has
fewer names left that are not active. -/
theorem exists_expands (scope : Scope) (active : List (List Char)) (texts : List Part) :
    ∃ chains, Expands scope active texts (scope.expandParts active texts) chains := by
  fun_induction expandParts scope active texts with
  | case1 active => exact ⟨[], .nil⟩
  | case2 active c rest ih =>
    obtain ⟨chains, after⟩ := ih
    exact ⟨chains, .char after⟩
  | case3 active body rest name found within ih =>
    obtain ⟨chains, after⟩ := ih
    suffices ∃ chains, Expands scope active (.reference body :: rest)
        (scope.expandParts active (.reference body :: rest)) chains by
      rwa [expandParts] at this
    by_cases member : name ∈ active
    · rw [expandParts_active member]
      exact ⟨chains, .active member after⟩
    cases value : scope.resolve? body with
    | none =>
      rw [expandParts_unresolved member value]
      exact ⟨chains, .unresolved member value after⟩
    | some text =>
      obtain ⟨nested, inside⟩ := within member text value
      rw [expandParts_resolved member value]
      exact ⟨(name :: active) :: nested ++ chains, .resolved member value inside after⟩

/-- A derivation leads to the expansion that is computed. -/
theorem Expands.eq (derivation : Expands scope active texts expansion chains) :
    expansion = scope.expandParts active texts := by
  induction derivation with
  | nil => rw [expandParts_nil]
  | char rest ih => rw [expandParts_char, ih]
  | active member rest ih => rw [expandParts_active member, ih]
  | unresolved new missing rest ih => rw [expandParts_unresolved new missing, ih]
  | resolved new found within rest inside after =>
    rw [expandParts_resolved new found, inside, after]

theorem expand_of_not_mem {text : String} (bare : '$' ∉ text.toList) :
    scope.expand text = ⟨text.toList, []⟩ :=
  (Expands.of_not_mem bare).eq.symm

/-- No name is active twice in a nested expansion. -/
theorem Expands.chain_nodup (derivation : Expands scope active texts expansion chains)
    (distinct : active.Nodup) : ∀ chain ∈ chains, chain.Nodup := by
  induction derivation with
  | nil => nofun
  | char rest ih => exact ih distinct
  | active member rest ih => exact ih distinct
  | unresolved new missing rest ih => exact ih distinct
  | resolved new found within rest inside after =>
    have longer := List.nodup_cons.mpr ⟨new, distinct⟩
    rw [List.forall_mem_append, List.forall_mem_cons]
    exact ⟨⟨longer, inside longer⟩, after distinct⟩

/-- A text is known if it is a fragment of a first text or of one that the scope holds. -/
def Known (scope : Scope) (text fragment : List Char) : Prop :=
  fragment <:+: text ∨ ∃ value, scope.Holds value ∧ fragment <:+: value.toList

theorem Known.of_isInfix {text whole fragment : List Char} (known : scope.Known text whole)
    (inside : fragment <:+: whole) : scope.Known text fragment := by
  rcases known with own | ⟨value, held, part⟩
  · exact .inl (inside.trans own)
  · exact .inr ⟨value, held, inside.trans part⟩

private theorem Known.of_resolve {text : List Char} (known : scope.Known text body)
    (found : scope.resolve? body = some value) : scope.Known text value.toList := by
  rcases holds_of_resolve found with held | own
  · -- no part of the first text need hold the value, but the scope does
    exact .inr ⟨value, held, List.infix_refl _⟩
  · exact known.of_isInfix own

/-- All names that are active in a nested expansion are known, if the text is and those that were
active before are. -/
theorem Expands.chain_known {text : List Char}
    (derivation : Expands scope active texts expansion chains)
    (names : ∀ name ∈ active, scope.Known text name)
    (bodies : ∀ body, .reference body ∈ texts → scope.Known text body) :
    ∀ chain ∈ chains, ∀ name ∈ chain, scope.Known text name := by
  induction derivation with
  | nil => nofun
  | char rest ih => exact ih names fun body member => bodies body (.tail _ member)
  | active member rest ih => exact ih names fun body member => bodies body (.tail _ member)
  | unresolved new missing rest ih =>
    exact ih names fun body member => bodies body (.tail _ member)
  | @resolved active body value texts _ _ nested chains new found within rest inside after =>
    have known : scope.Known text body := bodies body List.mem_cons_self
    have longer : ∀ name ∈ Text.trim body :: active, scope.Known text name :=
      List.forall_mem_cons.mpr ⟨known.of_isInfix (Text.trim_isInfix body), names⟩
    have deeper : ∀ other, .reference other ∈ parts value.toList → scope.Known text other :=
      fun other member => (known.of_resolve found).of_isInfix (body_isInfix member)
    rw [List.forall_mem_append, List.forall_mem_cons]
    exact ⟨⟨longer, inside longer deeper⟩,
      after names fun other member => bodies other (.tail _ member)⟩

end PackageSheet.Scope
