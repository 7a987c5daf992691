import PackageSheet.Proofs.Sheet.Acceptance
import PackageSheet.Proofs.Sheet.Position

/-!
Reading makes progress. Reading by positions is reading: what it has reached by a position is the
outcome for the tokens from there on (`outcome_statementsAt`). So reading the statements of a text
comes to an end after at most one turn for each token and one more, and finds at most as many
statements as there are tokens (`statements_progress`).
-/

namespace PackageSheet

namespace Reached

variable {α : Type}

def outcome (tokens : List Token) (reached : Reached α) : Outcome α :=
  ⟨reached.result, reached.problems, tokens.drop reached.position⟩

variable {tokens : List Token}

private theorem outcome_after (problems : List Diagnostic) (reached : Reached α) :
    (reached.after problems).outcome tokens = (reached.outcome tokens).after problems := rfl

end Reached

/-- The outcome of a turn, where the loop that goes on is told by a way to read the tokens left. -/
def Turn.outcome {σ α : Type} (tokens : List Token) (read : σ → List Token → Outcome α) :
    Turn σ α → Outcome α
  | .leave reached => reached.outcome tokens
  | .again next problems onward => (read next (tokens.drop onward)).after problems

/-- A loop is a way to read the tokens left, if each of its turns is. -/
theorem outcome_loop {σ α : Type} {tokens : List Token} {turn : σ → Nat → Turn σ α}
    {top : Nat} (progresses : Progresses tokens.length top turn)
    {read : σ → List Token → Outcome α}
    (told : ∀ state position,
      (turn state position).outcome tokens read = read state (tokens.drop position))
    (state : σ) (position : Nat) :
    (loop turn progresses state position).outcome tokens = read state (tokens.drop position) := by
  refine loop_induction progresses
    (motive := fun state position reached =>
      reached.outcome tokens = read state (tokens.drop position)) ?leave ?again state position
  case leave =>
    intro state position reached taken
    rw [← told, taken, Turn.outcome]
  case again =>
    intro state position next problems onward reached taken ih
    rw [← told, taken, Turn.outcome, Reached.outcome_after, ih]

namespace Reading

variable (reading : Reading) (tokens : List Token)

theorem drop_of_getElem? {tokens : List Token} {position : Nat} {t : Token}
    (here : tokens[position]? = some t) :
    tokens.drop position = t :: tokens.drop (position + 1) := by
  rw [List.drop_eq_getElem?_toList_append, here]
  rfl

theorem drop_of_getElem?_none {tokens : List Token} {position : Nat}
    (last : tokens[position]? = none) : tokens.drop position = [] :=
  List.drop_eq_nil_of_le (List.getElem?_eq_none_iff.mp last)

theorem drop_stopAt (stops : List TokenKind) (position : Nat) :
    tokens.drop (stopAt tokens stops position) = skipTo stops (tokens.drop position) := by
  let passed := (tokens.drop position).takeWhile fun t => !stops.contains t.kind
  have parts : tokens.drop position = passed ++ skipTo stops (tokens.drop position) :=
    List.takeWhile_append_dropWhile.symm
  calc tokens.drop (stopAt tokens stops position)
      = (tokens.drop position).drop passed.length := List.drop_drop.symm
    _ = (passed ++ skipTo stops (tokens.drop position)).drop passed.length :=
      congrArg (List.drop passed.length) parts
    _ = skipTo stops (tokens.drop position) := List.drop_left

theorem drop_stopAt_succ (stops : List TokenKind) (position : Nat) :
    tokens.drop (stopAt tokens stops position + 1) = skipPast stops (tokens.drop position) := by
  rw [skipPast, ← drop_stopAt, List.drop_drop]

private theorem splitValue_skipPast (tokens : List Token) :
    (splitValue true tokens).2 = (splitValue false (skipPast [.closeBrace] tokens)).2 := by
  induction tokens with
  | nil => rfl
  | cons t ts ih =>
    by_cases closes : t.kind = .closeBrace
    · simp [splitValue, skipPast, skipTo, closes]
    · have skipped : skipPast [.closeBrace] (t :: ts) = skipPast [.closeBrace] ts := by
        simp [skipPast, skipTo, closes]
      rw [splitValue, bne_iff_ne.mpr closes, ih, skipped]

private theorem drop_min_length (position : Nat) :
    tokens.drop (min position tokens.length) = tokens.drop position := by
  rcases Nat.le_total position tokens.length with inside | behind
  · rw [Nat.min_eq_left inside]
  · rw [Nat.min_eq_right behind, List.drop_length, List.drop_eq_nil_of_le behind]

private theorem outcome_valueTurn (state : Unit) (position : Nat) :
    (valueTurn tokens state position).outcome tokens
        (fun _ tokens => ⟨(), [], (splitValue false tokens).2⟩) =
      ⟨(), [], (splitValue false (tokens.drop position)).2⟩ := by
  simp only [valueTurn]
  split
  case h_1 last => simp [Turn.outcome, Reached.outcome, drop_of_getElem?_none last, splitValue]
  case h_2 t here =>
    rw [drop_of_getElem? here]
    split
    case h_1 kind | h_2 kind | h_3 kind | h_4 kind =>
      have separates : Grammar.Separates t := by simp [Grammar.Separates, kind]
      rw [splitValue_separator separates, Turn.outcome, Reached.outcome, drop_of_getElem? here]
    case h_5 =>
      have inside : ¬ Grammar.Separates t := by simp_all [Grammar.Separates]
      rw [splitValue_token inside]
      split
      case isTrue group =>
        rw [group, Turn.outcome, drop_min_length, drop_stopAt_succ, splitValue_skipPast]
        rfl
      case isFalse single =>
        rw [Bool.eq_false_iff.mpr single, Turn.outcome]
        rfl

theorem drop_valueEnd (position : Nat) :
    tokens.drop (valueEnd tokens position) = (splitValue false (tokens.drop position)).2 :=
  congrArg Outcome.rest
    (outcome_loop (progresses_valueTurn tokens) (outcome_valueTurn tokens) () position)

private theorem take_valueEnd (position : Nat) :
    (tokens.drop position).take (valueEnd tokens position - position) =
      (splitValue false (tokens.drop position)).1 := by
  have parts := splitValue_parts false (tokens.drop position)
  have within := within_valueEnd tokens position
  have behind := congrArg List.length (drop_valueEnd tokens position)
  have whole := congrArg List.length parts
  simp only [List.length_append, List.length_drop, Within] at behind whole within
  conv => lhs; rw [← parts]
  refine List.take_left' ?_
  omega

theorem outcome_valueAt (position : Nat) :
    (reading.valueAt tokens position).outcome tokens = reading.value (tokens.drop position) := by
  simp only [valueAt, value, Reached.outcome, take_valueEnd, drop_valueEnd]

private theorem outcome_valuesTurn (found : List String) (position : Nat) :
    (reading.valuesTurn tokens found position).outcome tokens
        (fun found tokens => (reading.values tokens).map (found ++ ·)) =
      (reading.values (tokens.drop position)).map (found ++ ·) := by
  have value := reading.outcome_valueAt tokens position
  dsimp only [valuesTurn]
  split
  case isTrue comma =>
    have comma : nextIs .comma (reading.value (tokens.drop position)).rest := value ▸ comma
    rw [values, dif_pos comma, ← value]
    simp only [Turn.outcome, Reached.outcome, Outcome.map, Outcome.after, List.drop_drop,
      List.nil_append, List.append_assoc]
    rfl
  case isFalse last =>
    have last : ¬ nextIs .comma (reading.value (tokens.drop position)).rest := value ▸ last
    rw [values, dif_neg last, ← value]
    rfl

theorem outcome_valuesAt (position : Nat) :
    (reading.valuesAt tokens position).outcome tokens = reading.values (tokens.drop position) :=
  outcome_loop (reading.progresses_valuesTurn tokens)
    (reading.outcome_valuesTurn tokens) [] position

private theorem outcome_propertyAt (rule : Rule) (name : Token) (position : Nat) :
    (reading.propertyAt tokens rule name position).outcome tokens =
      reading.property rule name (tokens.drop position) := by
  have values := reading.outcome_valuesAt tokens (position + 1)
  unfold propertyAt property
  split
  case isTrue => simp only [Reached.outcome, drop_stopAt]
  case isFalse =>
    rw [List.drop_drop, ← values]
    simp only [Reached.outcome]
    split
    case h_1 last => simp only [drop_of_getElem?_none last]
    case h_2 t here =>
      simp only [drop_of_getElem? here]
      split
      case isTrue ends => simp only [drop_of_getElem? here]
      case isFalse => simp only [drop_stopAt, drop_of_getElem? here]

private theorem outcome_bodyTurn (rule : Rule) (position : Nat) :
    (reading.bodyTurn tokens rule position).outcome tokens reading.body =
      reading.body rule (tokens.drop position) := by
  simp only [bodyTurn]
  split
  case h_1 last =>
    simp only [Turn.outcome, Reached.outcome, drop_of_getElem?_none last]
    rw [body]
  case h_2 t here =>
    rw [drop_of_getElem? here]
    split
    case h_1 closes =>
      rw [body_closeBrace closes]
      rfl
    case h_2 semicolon =>
      rw [body_semicolon semicolon]
      rfl
    case h_3 named =>
      rw [body, named, ← outcome_propertyAt]
      rfl
    case h_4 =>
      rw [body, Turn.outcome, drop_stopAt]
      split <;> simp_all

theorem outcome_bodyAt (rule : Rule) (position : Nat) :
    (reading.bodyAt tokens rule position).outcome tokens =
      reading.body rule (tokens.drop position) :=
  outcome_loop (reading.progresses_bodyTurn tokens) (reading.outcome_bodyTurn tokens) rule position

theorem outcome_abandonAt (problem : Problem) (position : Nat) :
    (reading.abandonAt tokens problem position).outcome tokens =
      reading.abandon problem (tokens.drop position) := by
  simp only [Reached.outcome, abandonAt, abandon, skipBlock, blockEnd, ← drop_stopAt]
  split
  case h_1 last => simp [drop_of_getElem?_none last, nextIs]
  case h_2 t here =>
    split
    case isTrue opens => simp [drop_of_getElem? here, nextIs, opens, drop_stopAt_succ]
    case isFalse other => simp [drop_of_getElem? here, nextIs, other]

variable {reading tokens} in
private theorem outcome_partTurn {missing : Problem} {update : String → Rule} {rule : Rule}
    {mark : Token}
    (named : ∀ {name rest}, name.kind = .identifier →
      reading.selectorParts rule (mark :: name :: rest) =
        reading.selectorParts (update name.text) rest)
    (unnamed : ∀ {rest}, nextIs .identifier rest = false →
      reading.selectorParts rule (mark :: rest) = reading.abandon missing rest)
    (position : Nat) :
    (reading.partTurn tokens missing update position).outcome tokens reading.selectorParts =
      reading.selectorParts rule (mark :: tokens.drop position) := by
  unfold partTurn
  split
  case h_1 last =>
    have missed : nextIs .identifier (tokens.drop position) = false := by
      rw [drop_of_getElem?_none last, nextIs]
    rw [unnamed missed, Turn.outcome, outcome_abandonAt]
  case h_2 name here =>
    split
    case isTrue identifier =>
      rw [drop_of_getElem? here, named identifier]
      rfl
    case isFalse other =>
      have missed : nextIs .identifier (tokens.drop position) = false := by
        rw [drop_of_getElem? here, nextIs, beq_eq_false_iff_ne.mpr other]
      rw [unnamed missed, Turn.outcome, outcome_abandonAt]

private theorem outcome_selectorTurn (rule : Rule) (position : Nat) :
    (reading.selectorTurn tokens rule position).outcome tokens reading.selectorParts =
      reading.selectorParts rule (tokens.drop position) := by
  simp only [selectorTurn]
  split
  case h_1 last => rw [Turn.outcome, outcome_abandonAt, drop_of_getElem?_none last, selectorParts]
  case h_2 t here =>
    rw [drop_of_getElem? here]
    split
    case h_1 dot =>
      exact outcome_partTurn (selectorParts_class dot) (selectorParts_unnamedClass dot) _
    case h_2 hash =>
      exact outcome_partTurn (selectorParts_id hash) (selectorParts_unnamedId hash) _
    case h_3 opens =>
      rw [selectorParts_openBrace opens]
      rfl
    case h_4 dot hash inside =>
      split
      case isTrue parameter =>
        rw [selectorParts_parameter parameter.1 parameter.2]
        rfl
      case isFalse unread =>
        have marks : ¬ (t.kind = .dot ∨ t.kind = .hash) := not_or.mpr ⟨dot, hash⟩
        rw [selectorParts_unopened marks inside unread, Turn.outcome, outcome_abandonAt,
          drop_of_getElem? here]

theorem outcome_partsAt (rule : Rule) (position : Nat) :
    (reading.partsAt tokens rule position).outcome tokens =
      reading.selectorParts rule (tokens.drop position) :=
  outcome_loop (reading.progresses_selectorTurn tokens) (reading.outcome_selectorTurn tokens) rule
    position

private theorem outcome_selectorAt (start : Token) {position : Nat}
    (here : tokens[position]? = some start) :
    (reading.selectorAt tokens start position).outcome tokens =
      reading.selector start (tokens.drop (position + 1)) := by
  unfold selectorAt selector
  dsimp only
  split
  case isTrue => exact reading.outcome_partsAt tokens _ (position + 1)
  case isFalse => rw [outcome_partsAt, drop_of_getElem? here]

private theorem outcome_ruleAt (start : Token) {position : Nat} (here : tokens[position]? = some start) :
    (reading.ruleAt tokens start position).outcome tokens =
      reading.rule start (tokens.drop (position + 1)) := by
  unfold ruleAt rule
  rw [← reading.outcome_selectorAt tokens start here]
  dsimp only [Reached.outcome]
  cases found : (reading.selectorAt tokens start position).result with
  | none =>
    dsimp only
    rw [found]
  | some rule =>
    dsimp only
    rw [← outcome_bodyAt]
    rfl

private theorem outcome_importEndAt (position : Nat) :
    (reading.importEndAt tokens position).outcome tokens =
      reading.importEnd (tokens.drop position) := by
  unfold importEndAt importEnd
  split
  case h_1 last => simp [Reached.outcome, drop_of_getElem?_none last]
  case h_2 t here =>
    split
    case isTrue semicolon => simp [Reached.outcome, drop_of_getElem? here, nextIs, semicolon]
    case isFalse other =>
      simp [Reached.outcome, drop_of_getElem? here, nextIs, other, drop_stopAt_succ, Reading.here]

private theorem outcome_directiveAt (start : Token) (position : Nat) :
    (reading.directiveAt tokens start position).outcome tokens =
      reading.directive start (tokens.drop position) := by
  unfold directiveAt directive
  rw [← outcome_valueAt]
  dsimp only [Reached.outcome]
  rw [← outcome_importEndAt]
  split
  case isTrue => rw [drop_stopAt_succ]
  case isFalse =>
    split <;> rfl

private theorem outcome_statementsTurn (found : List Statement) (position : Nat) :
    (reading.statementsTurn tokens found position).outcome tokens
        (fun found tokens => (reading.statements tokens).map (found ++ ·)) =
      (reading.statements (tokens.drop position)).map (found ++ ·) := by
  simp only [statementsTurn]
  split
  case h_1 last =>
    rw [drop_of_getElem?_none last, statements_nil]
    simp [Turn.outcome, Reached.outcome, Outcome.map, drop_of_getElem?_none last]
  case h_2 t here =>
    rw [drop_of_getElem? here]
    split
    case h_1 semicolon =>
      rw [statements_semicolon semicolon]
      rfl
    case h_2 directive =>
      rw [statements_directive directive, ← outcome_directiveAt]
      simp [Turn.outcome, Outcome.map, Outcome.after, Reached.outcome]
    case h_3 semicolon directive =>
      rw [statements_rule semicolon directive, ← outcome_ruleAt _ _ _ here]
      simp [Turn.outcome, Outcome.map, Outcome.after, Reached.outcome]

/-- Reading the statements of a text by their positions. -/
theorem outcome_statementsAt (position : Nat) :
    (reading.statementsAt tokens position).outcome tokens =
      reading.statements (tokens.drop position) :=
  outcome_loop (reading.progresses_statementsTurn tokens)
    (reading.outcome_statementsTurn tokens) [] position

private theorem length_statementsTurn_le {found next : List Statement} {position onward : Nat}
    {problems : List Diagnostic}
    (taken : reading.statementsTurn tokens found position = .again next problems onward) :
    next.length ≤ found.length + 1 := by
  have single (item : Option Statement) : item.toList.length ≤ 1 := by cases item <;> simp
  simp only [statementsTurn] at taken
  split at taken
  case h_1 => cases taken
  case h_2 =>
    split at taken <;> cases taken
    case h_1 => exact Nat.le_succ _
    case h_2 | h_3 =>
      rw [List.length_append]
      exact Nat.add_le_add_left (single _) _

theorem length_statements_le : (reading.statements tokens).result.length ≤ tokens.length := by
  have found := loop_induction (reading.progresses_statementsTurn tokens)
    (motive := fun found position reached =>
      reached.result.length ≤ found.length + (tokens.length - position)) ?leave ?again [] 0
  case leave =>
    intro found position reached taken
    simp only [statementsTurn] at taken
    split at taken
    case h_1 =>
      cases taken
      exact Nat.le_add_right ..
    case h_2 => split at taken <;> cases taken
  case again =>
    intro found position next problems onward reached taken ih
    have ahead := (reading.progresses_statementsTurn tokens).again taken
    have longer := reading.length_statementsTurn_le tokens taken
    simp only [Reached.after]
    omega
  have told := congrArg Outcome.result (reading.outcome_statementsAt tokens 0)
  rw [List.drop_zero] at told
  rw [← told]
  simpa [Reached.outcome, statementsAt] using found

/-- Reading makes progress. Each of its loops, which read from a position on what reading does from
the tokens that are left, leaves off or goes on from a later position in every turn, and leads at
most one place behind the last token, also where something is given up or skipped. So the loop over
the statements comes to its end after at most one turn for each token and one more, and it finds at
most as many statements as there are tokens. -/
theorem statements_progress :
    (Progresses tokens.length (tokens.length + 1) (reading.statementsTurn tokens) ∧
      Progresses tokens.length (tokens.length + 1) (reading.selectorTurn tokens) ∧
      Progresses tokens.length tokens.length (reading.bodyTurn tokens) ∧
      Progresses tokens.length tokens.length (reading.valuesTurn tokens) ∧
      Progresses tokens.length tokens.length (valueTurn tokens)) ∧
    (∀ position rule,
      (reading.statementsAt tokens position).outcome tokens =
        reading.statements (tokens.drop position) ∧
      (reading.partsAt tokens rule position).outcome tokens =
        reading.selectorParts rule (tokens.drop position) ∧
      (reading.bodyAt tokens rule position).outcome tokens =
        reading.body rule (tokens.drop position) ∧
      (reading.valuesAt tokens position).outcome tokens = reading.values (tokens.drop position) ∧
      (reading.valueAt tokens position).outcome tokens = reading.value (tokens.drop position)) ∧
    (reading.statementsAt tokens 0).position ≤ tokens.length + 1 ∧
    turns (reading.statementsTurn tokens) (reading.progresses_statementsTurn tokens) [] 0 ≤
      tokens.length + 1 ∧
    (reading.statements tokens).result.length ≤ tokens.length := by
  refine ⟨⟨reading.progresses_statementsTurn tokens, reading.progresses_selectorTurn tokens,
    reading.progresses_bodyTurn tokens, reading.progresses_valuesTurn tokens,
    progresses_valueTurn tokens⟩,
    fun position rule => ⟨?statements, ?parts, ?body, ?values, ?value⟩, ?place,
    turns_le _ [] 0, reading.length_statements_le tokens⟩
  case statements => exact reading.outcome_statementsAt tokens position
  case parts => exact reading.outcome_partsAt tokens rule position
  case body => exact reading.outcome_bodyAt tokens rule position
  case values => exact reading.outcome_valuesAt tokens position
  case value => exact reading.outcome_valueAt tokens position
  case place => simpa using (reading.within_statementsAt tokens 0).2

end Reading

end PackageSheet
