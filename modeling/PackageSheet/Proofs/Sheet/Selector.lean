import PackageSheet.Proofs.Sheet.Grammar

namespace PackageSheet

open Grammar

theorem Grammar.Selector.ne_nil {s : List Token} (selects : Selector s) : s ≠ [] := by
  rintro rfl
  obtain _ | ⟨all, -, some⟩ := selects
  cases all
  cases some

/-- A selector begins with neither a semicolon nor a directive. -/
theorem Grammar.Selector.kind_head {t : Token} {s : List Token} (selects : Selector (t :: s)) :
    t.kind ≠ .semicolon ∧ t.kind ≠ .directive := by
  cases selects with
  | named kind => rcases kind with kind | ⟨kind, -⟩ <;> simp [kind]
  | unnamed all =>
    cases all with
    | ofClass kind | ofId kind | ofParameter kind => simp [kind]

private theorem Grammar.Parts.not_isRuleName {parameters names : Nat} {t : Token} {ts : List Token}
    (all : Parts parameters names (t :: ts)) : Reading.isRuleName t = false := by
  cases all with
  | ofClass kind | ofId kind | ofParameter kind => simp [Reading.isRuleName, kind]

def Rule.Nameless (rule : Rule) : Prop :=
  rule.name = "" ∧ rule.id = none ∧ rule.class = none

instance (rule : Rule) : Decidable rule.Nameless :=
  inferInstanceAs (Decidable (_ ∧ _ ∧ _))

end PackageSheet

namespace PackageSheet.Reading

open Grammar

/-- A rule got parts of a selector, with a number of classes and ids among them. -/
structure Gets (before : PackageSheet.Rule) (names : Nat) (after : PackageSheet.Rule) : Prop where
  name : after.name = before.name
  bare : after.id = none ∧ after.class = none ↔ before.id = none ∧ before.class = none ∧ names = 0

/-- The number of parameters that a rule can still get. -/
def room (rule : PackageSheet.Rule) : Nat :=
  if rule.parameter = none then 1 else 0

variable {reading : Reading} {rule : PackageSheet.Rule} {t name opening : Token}
  {parts rest tokens : List Token} {parameters names : Nat}

theorem selectorParts_class (kind : t.kind = .dot) (named : name.kind = .identifier) :
    selectorParts reading rule (t :: name :: tokens) =
      selectorParts reading { rule with «class» := some name.text } tokens := by
  rw [selectorParts.eq_def]
  simp_all

theorem selectorParts_id (kind : t.kind = .hash) (named : name.kind = .identifier) :
    selectorParts reading rule (t :: name :: tokens) =
      selectorParts reading { rule with id := some name.text } tokens := by
  rw [selectorParts.eq_def]
  simp_all

theorem selectorParts_parameter (kind : t.kind = .selectorParameter)
    (free : rule.parameter = none) :
    selectorParts reading rule (t :: tokens) =
      selectorParts reading { rule with parameter := some t.text } tokens := by
  rw [selectorParts.eq_def]
  simp_all

theorem selectorParts_openBrace (opens : opening.kind = .openBrace) :
    selectorParts reading rule (opening :: rest) = ⟨some rule, [], rest⟩ := by
  rw [selectorParts.eq_def]
  simp_all

theorem selectorParts_unnamedClass (kind : t.kind = .dot)
    (unnamed : nextIs .identifier tokens = false) :
    selectorParts reading rule (t :: tokens) = reading.abandon .missingClassName tokens := by
  rw [selectorParts.eq_def]
  cases tokens with
  | nil => simp [kind]
  | cons next tokens => simp_all [nextIs]

theorem selectorParts_unnamedId (kind : t.kind = .hash)
    (unnamed : nextIs .identifier tokens = false) :
    selectorParts reading rule (t :: tokens) = reading.abandon .missingIdName tokens := by
  rw [selectorParts.eq_def]
  cases tokens with
  | nil => simp [kind]
  | cons next tokens => simp_all [nextIs]

/-- What is no part of a selector is reported in front of the block that it takes along. -/
theorem selectorParts_unopened (marks : ¬ (t.kind = .dot ∨ t.kind = .hash))
    (inside : t.kind ≠ .openBrace)
    (unread : ¬ (t.kind = .selectorParameter ∧ rule.parameter = none)) :
    selectorParts reading rule (t :: tokens) =
      reading.abandon (.unopenedBlock rule.selectorText) (t :: tokens) := by
  rw [selectorParts.eq_def]
  dsimp only
  split
  · simp_all
  · simp_all
  · simp_all
  · rw [if_neg unread]

private theorem selectorParts_append (all : Parts parameters names parts) (once : parameters ≤ room rule)
    (opens : opening.kind = .openBrace) :
    ∃ selected, (∀ rest, selectorParts reading rule (parts ++ opening :: rest) =
      ⟨some selected, [], rest⟩) ∧ Gets rule names selected := by
  induction all generalizing rule with
  | nil => exact ⟨rule, fun rest => selectorParts_openBrace opens, rfl, by simp⟩
  | @ofClass parameters names dot name ts kind named after ih =>
    obtain ⟨selected, read, gets⟩ := @ih { rule with «class» := some name.text } once
    refine ⟨selected, fun rest => ?_, gets.name, by simp [gets.bare]⟩
    rw [List.cons_append, List.cons_append, selectorParts_class kind named]
    exact read rest
  | @ofId parameters names hash name ts kind named after ih =>
    obtain ⟨selected, read, gets⟩ := @ih { rule with id := some name.text } once
    refine ⟨selected, fun rest => ?_, gets.name, by simp [gets.bare]⟩
    rw [List.cons_append, List.cons_append, selectorParts_id kind named]
    exact read rest
  | @ofParameter parameters names t ts kind after ih =>
    have free : rule.parameter = none := by
      by_cases free : rule.parameter = none
      · exact free
      · simp [room, free] at once
    have still : parameters ≤ room { rule with parameter := some t.text } := by
      simpa [room, free] using once
    obtain ⟨selected, read, gets⟩ := ih still
    refine ⟨selected, fun rest => ?_, gets.name, gets.bare⟩
    rw [List.cons_append, selectorParts_parameter kind free]
    exact read rest

private theorem selectorParts_read (clean : (selectorParts reading rule tokens).problems = []) :
    ∃ parts parameters names opening selected,
      tokens = parts ++ opening :: (selectorParts reading rule tokens).rest ∧
      Parts parameters names parts ∧ parameters ≤ room rule ∧ opening.kind = .openBrace ∧
      (selectorParts reading rule tokens).result = some selected ∧ Gets rule names selected := by
  fun_induction selectorParts reading rule tokens with
  | case1 => cases clean
  | case2 rule t kind n ns named ih =>
    obtain ⟨parts, parameters, names, opening, selected, split, all, once, opens, result, gets⟩ :=
      ih clean
    exact ⟨t :: n :: parts, parameters, names + 1, opening, selected, congrArg _ (congrArg _ split),
      .ofClass kind named all, once, opens, result, gets.name, by simp [gets.bare]⟩
  | case3 | case4 => cases clean
  | case5 rule t kind n ns named ih =>
    obtain ⟨parts, parameters, names, opening, selected, split, all, once, opens, result, gets⟩ :=
      ih clean
    exact ⟨t :: n :: parts, parameters, names + 1, opening, selected, congrArg _ (congrArg _ split),
      .ofId kind named all, once, opens, result, gets.name, by simp [gets.bare]⟩
  | case6 | case7 => cases clean
  | case8 rule t ts kind =>
    exact ⟨[], 0, 0, t, rule, rfl, .nil, Nat.zero_le _, kind, rfl, rfl, by simp⟩
  | case9 rule t ts free _ _ _ ih =>
    obtain ⟨parts, parameters, names, opening, selected, split, all, once, opens, result, gets⟩ :=
      ih clean
    refine ⟨t :: parts, parameters + 1, names, opening, selected, congrArg _ split,
      .ofParameter free.1 all, ?_, opens, result, gets.name, gets.bare⟩
    simpa [room, free.2] using once
  | case10 => cases clean

/-- A selector is read up to and with the opening brace, and names something. -/
theorem selector_append (selects : Selector (t :: parts))
    (full : t.kind = .identifier → t.text ≠ "") (opens : opening.kind = .openBrace) :
    ∃ selected, (∀ rest, reading.selector t (parts ++ opening :: rest) =
      ⟨some selected, [], rest⟩) ∧ ¬ selected.Nameless := by
  cases selects with
  | named kind after once =>
    have name : isRuleName t = true := by
      rcases kind with kind | ⟨kind, star⟩
      · simp [isRuleName, kind]
      · simp [isRuleName, kind, star]
    obtain ⟨selected, read, gets⟩ := @selectorParts_append reading
      { name := t.text, location := reading.locate t } opening _ _ _ after once opens
    refine ⟨selected, fun rest => by simp [selector, name, read], fun nameless => ?_⟩
    have empty : t.text = "" := gets.name.symm.trans nameless.1
    rcases kind with kind | ⟨-, star⟩
    · exact full kind empty
    · simp [star] at empty
  | unnamed all once some =>
    obtain ⟨selected, read, gets⟩ := @selectorParts_append reading
      { name := "", location := reading.locate t } opening _ _ _ all once opens
    refine ⟨selected, fun rest => ?_, fun nameless => ?_⟩
    · simpa [selector, all.not_isRuleName] using read rest
    · have none := (gets.bare.mp nameless.2).2.2
      omega

theorem selector_read (clean : (reading.selector t tokens).problems = []) :
    ∃ s opening selected, t :: tokens = s ++ opening :: (reading.selector t tokens).rest ∧
      opening.kind = .openBrace ∧ (reading.selector t tokens).result = some selected ∧
      (¬ selected.Nameless → Selector s) := by
  unfold selector at clean ⊢
  dsimp only at clean ⊢
  by_cases name : isRuleName t = true
  · simp only [name, if_true] at clean ⊢
    obtain ⟨parts, parameters, names, opening, selected, split, all, once, opens, result, gets⟩ :=
      selectorParts_read clean
    refine ⟨t :: parts, opening, selected, congrArg _ split, opens, result, fun _ => ?_⟩
    refine .named ?_ all once
    simpa [isRuleName] using name
  · simp only [name, if_false, Bool.false_eq_true] at clean ⊢
    obtain ⟨parts, parameters, names, opening, selected, split, all, once, opens, result, gets⟩ :=
      selectorParts_read clean
    refine ⟨parts, opening, selected, split, opens, result, fun proper => ?_⟩
    refine .unnamed all once (Nat.pos_of_ne_zero fun none => proper ⟨gets.name, ?_⟩)
    exact gets.bare.mpr ⟨rfl, rfl, none⟩

end PackageSheet.Reading
