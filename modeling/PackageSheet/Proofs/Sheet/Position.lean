import PackageSheet.Sheet.Statement

/-!
Reading by positions. The tokens of a text stay where they are and a position in them moves, perhaps
to one place behind the last: skipping to a token that is not there and past it leads there. A loop
of the reading is told by one turn, which leaves the loop or goes on from another position, and is a
loop only because it makes progress (`Progresses`, `loop`). For each way of reading, where it leads
is bounded by one fact (`Within`), and these are put together along the way.
-/

namespace PackageSheet

/-- What reading has reached: a result, the problems met on the way, and a position. -/
structure Reached (α : Type) where
  result : α
  problems : List Diagnostic
  position : Nat

namespace Reached

variable {α β : Type}

def map (f : α → β) (reached : Reached α) : Reached β :=
  ⟨f reached.result, reached.problems, reached.position⟩

def after (problems : List Diagnostic) (reached : Reached α) : Reached α :=
  { reached with problems := problems ++ reached.problems }

end Reached

/-- A way leads from a position to one that is not before it, and no further than a top, unless it
started there. -/
def Within (top position onward : Nat) : Prop :=
  position ≤ onward ∧ onward ≤ max position top

namespace Within

variable {top higher first second third : Nat}

theorem stay (top position : Nat) : Within top position position :=
  ⟨Nat.le_refl position, Nat.le_max_left ..⟩

theorem trans (one : Within top first second) (two : Within top second third) :
    Within top first third := by
  simp only [Within] at *
  omega

theorem mono (way : Within top first second) (le : top ≤ higher) :
    Within higher first second := by
  simp only [Within] at *
  omega

theorem step (here : first < top) : Within top first (first + 1) := by
  simp only [Within]
  omega

private theorem behind (way : Within top first second) (onward : first < second) :
    Within top (first + 1) second := by
  simp only [Within] at *
  omega

end Within

/-- One turn of a loop: it leaves the loop, or the loop goes on from another state and position. -/
inductive Turn (σ α : Type) where
  | leave (reached : Reached α)
  | again (state : σ) (problems : List Diagnostic) (position : Nat)

/-- Where a turn leads that starts at a position, in a loop over a number of tokens: out of the loop,
or, only from a token, onward; and never back or further than a top. -/
def Turn.Leads {σ α : Type} (count top position : Nat) : Turn σ α → Prop
  | .leave reached => Within top position reached.position
  | .again _ _ onward => position < count ∧ position < onward ∧ Within top position onward

/-- A loop makes progress: from every state and position a turn leaves it or leads onward. -/
def Progresses {σ α : Type} (count top : Nat) (turn : σ → Nat → Turn σ α) : Prop :=
  ∀ state position, (turn state position).Leads count top position

section Loop

variable {σ α : Type} {count top : Nat} {turn : σ → Nat → Turn σ α}

private theorem Progresses.leave (progresses : Progresses count top turn) {state : σ} {position : Nat}
    {reached : Reached α} (taken : turn state position = .leave reached) :
    Within top position reached.position := by
  have leads := progresses state position
  rwa [taken] at leads

theorem Progresses.again (progresses : Progresses count top turn) {state next : σ}
    {position onward : Nat} {problems : List Diagnostic}
    (taken : turn state position = .again next problems onward) :
    position < count ∧ position < onward ∧ Within top position onward := by
  have leads := progresses state position
  rwa [taken] at leads

/-- Take turns until one leaves the loop. -/
def loop (turn : σ → Nat → Turn σ α) (progresses : Progresses count top turn) (state : σ)
    (position : Nat) : Reached α :=
  match _h : turn state position with
  | .leave reached => reached
  | .again next problems onward => (loop turn progresses next onward).after problems
termination_by count - position
decreasing_by
  have := progresses.again _h
  omega

/-- The number of turns of a loop. -/
def turns (turn : σ → Nat → Turn σ α) (progresses : Progresses count top turn) (state : σ)
    (position : Nat) : Nat :=
  match _h : turn state position with
  | .leave _ => 1
  | .again next _ onward => turns turn progresses next onward + 1
termination_by count - position
decreasing_by
  have := progresses.again _h
  omega

variable (progresses : Progresses count top turn)

/-- What holds where a turn leaves a loop, and is carried back over each other turn, holds of the
whole loop. -/
theorem loop_induction {motive : σ → Nat → Reached α → Prop}
    (leave : ∀ state position reached, turn state position = .leave reached →
      motive state position reached)
    (again : ∀ state position next problems onward reached,
      turn state position = .again next problems onward → motive next onward reached →
      motive state position (reached.after problems))
    (state : σ) (position : Nat) :
    motive state position (loop turn progresses state position) := by
  fun_induction loop turn progresses state position with
  | case1 state position reached taken => exact leave state position reached taken
  | case2 state position next problems onward taken ih =>
    exact again state position next problems onward _ taken ih

/-- A loop takes at most one turn for each token ahead, and one more. -/
theorem turns_le (state : σ) (position : Nat) :
    turns turn progresses state position ≤ count - position + 1 := by
  fun_induction turns turn progresses state position with
  | case1 => exact Nat.le_add_left 1 _
  | case2 state position next _ onward taken ih =>
    have := progresses.again taken
    omega

theorem within_loop (state : σ) (position : Nat) :
    Within top position (loop turn progresses state position).position := by
  refine loop_induction progresses
    (motive := fun _ position reached => Within top position reached.position)
    ?leave ?again state position
  case leave => exact fun _ _ _ taken => progresses.leave taken
  case again =>
    exact fun _ _ _ _ _ _ taken later => (progresses.again taken).2.2.trans later

private theorem lt_position_loop {state : σ} {position : Nat}
    (leaves : ∀ reached, turn state position = .leave reached → position < reached.position) :
    position < (loop turn progresses state position).position := by
  unfold loop
  split
  case h_1 reached taken => exact leaves reached taken
  case h_2 next problems onward taken =>
    exact Nat.lt_of_lt_of_le (progresses.again taken).2.1 (within_loop progresses next onward).1

end Loop

namespace Reading

variable (reading : Reading) (tokens : List Token)

theorem lt_length_of_getElem? {tokens : List Token} {position : Nat} {t : Token}
    (here : tokens[position]? = some t) : position < tokens.length :=
  (List.getElem?_eq_some_iff.mp here).1

def stopAt (stops : List TokenKind) (position : Nat) : Nat :=
  position + ((tokens.drop position).takeWhile fun t => !stops.contains t.kind).length

theorem within_stopAt (stops : List TokenKind) (position : Nat) :
    Within tokens.length position (stopAt tokens stops position) := by
  have := (List.takeWhile_sublist (l := tokens.drop position)
    fun t => !stops.contains t.kind).length_le
  simp only [List.length_drop] at this
  simp only [Within, stopAt]
  omega

/-! ## Values -/

/-- A turn over the tokens of a value: a group is skipped, and never past the end. -/
def valueTurn (_ : Unit) (position : Nat) : Turn Unit Unit :=
  match tokens[position]? with
  | none => .leave ⟨(), [], position⟩
  | some t =>
    match t.kind with
    | .comma | .semicolon | .closeBrace | .openBrace => .leave ⟨(), [], position⟩
    | _ =>
      if t.kind == .symbol && t.text == "$" && nextIs .openBrace (tokens.drop (position + 1)) then
        .again () [] (min (stopAt tokens [.closeBrace] (position + 1) + 1) tokens.length)
      else .again () [] (position + 1)

theorem progresses_valueTurn : Progresses tokens.length tokens.length (valueTurn tokens) := by
  intro state position
  have skipped := within_stopAt tokens [.closeBrace] (position + 1)
  simp only [valueTurn]
  split
  case h_1 => exact .stay ..
  case h_2 t here =>
    have inside := lt_length_of_getElem? here
    have step : Within tokens.length position (position + 1) := .step inside
    split
    case h_1 | h_2 | h_3 | h_4 => exact .stay ..
    case h_5 =>
      split
      case isTrue =>
        simp only [Turn.Leads, Within] at skipped ⊢
        omega
      case isFalse => exact ⟨inside, Nat.lt_succ_self position, step⟩

/-- The position behind the value at a position. -/
def valueEnd (position : Nat) : Nat :=
  (loop (valueTurn tokens) (progresses_valueTurn tokens) () position).position

theorem within_valueEnd (position : Nat) :
    Within tokens.length position (valueEnd tokens position) :=
  within_loop (progresses_valueTurn tokens) () position

def valueAt (position : Nat) : Reached String :=
  let onward := valueEnd tokens position
  ⟨reading.valueText ((tokens.drop position).take (onward - position)), [], onward⟩

/-- A turn over values between commas; an empty one is passed over. -/
def valuesTurn (found : List String) (position : Nat) : Turn (List String) (List String) :=
  let next := reading.valueAt tokens position
  let values := found ++ if next.result = "" then [] else [next.result]
  if nextIs .comma (tokens.drop next.position) then .again values [] (next.position + 1)
  else .leave ⟨values, [], next.position⟩

theorem lt_length_of_nextIs {tokens : List Token} {kind : TokenKind} {position : Nat}
    (here : nextIs kind (tokens.drop position) = true) : position < tokens.length := by
  have := length_drop_lt_of_nextIs here
  simp only [List.length_drop] at this
  omega

theorem progresses_valuesTurn :
    Progresses tokens.length tokens.length (reading.valuesTurn tokens) := by
  intro found position
  have value : Within tokens.length position (reading.valueAt tokens position).position :=
    within_valueEnd tokens position
  simp only [valuesTurn]
  split
  case isTrue comma =>
    have inside := lt_length_of_nextIs comma
    exact ⟨Nat.lt_of_le_of_lt value.1 inside, Nat.lt_succ_of_le value.1, value.trans (.step inside)⟩
  case isFalse => exact value

def valuesAt (position : Nat) : Reached (List String) :=
  loop (reading.valuesTurn tokens) (reading.progresses_valuesTurn tokens) [] position

private theorem within_valuesAt (position : Nat) :
    Within tokens.length position (reading.valuesAt tokens position).position :=
  within_loop (reading.progresses_valuesTurn tokens) [] position

/-! ## Bodies -/

/-- Read one property of a rule after its name. Without a colon it is left out. -/
def propertyAt (rule : Rule) (name : Token) (position : Nat) : Reached Rule :=
  if !nextIs .colon (tokens.drop position) then
    ⟨rule, [(Problem.missingColon name.text).diagnosedAt (reading.here (tokens.drop position))],
      stopAt tokens [.semicolon, .closeBrace] position⟩
  else
    let found := reading.valuesAt tokens (position + 1)
    let declared := rule.declare name.text found.result (reading.locate name)
    match tokens[found.position]? with
    | none => ⟨declared, [], found.position⟩
    | some t =>
      if t.kind = .semicolon ∨ t.kind = .closeBrace then ⟨declared, [], found.position⟩
      else
        ⟨declared, [(Problem.unfinishedProperty name.text).diagnosedAt (reading.locate t)],
          stopAt tokens [.semicolon, .closeBrace] found.position⟩

private theorem within_propertyAt (rule : Rule) (name : Token) (position : Nat) :
    Within tokens.length position (reading.propertyAt tokens rule name position).position := by
  have skipped := within_stopAt tokens [.semicolon, .closeBrace]
  have values := reading.within_valuesAt tokens (position + 1)
  unfold propertyAt
  split
  case isTrue => exact skipped position
  case isFalse colon =>
    have colon : nextIs .colon (tokens.drop position) = true := by simpa using colon
    have found := (Within.step (lt_length_of_nextIs colon)).trans values
    dsimp only
    split
    case h_1 => exact found
    case h_2 t here =>
      split
      case isTrue => exact found
      case isFalse => exact found.trans (skipped _)

/-- A turn over the body of a rule. -/
def bodyTurn (rule : Rule) (position : Nat) : Turn Rule Rule :=
  match tokens[position]? with
  | none =>
    .leave ⟨rule, [(Problem.unfinishedRule rule.selectorText).diagnosedAt (reading.here [])],
      position⟩
  | some t =>
    match t.kind with
    | .closeBrace => .leave ⟨rule, [], position + 1⟩
    | .semicolon => .again rule [] (position + 1)
    | .identifier =>
      let found := reading.propertyAt tokens rule t (position + 1)
      .again found.result found.problems found.position
    | _ =>
      .again rule [Problem.missingPropertyName.diagnosedAt (reading.locate t)]
        (stopAt tokens [.semicolon, .closeBrace] (position + 1))

theorem progresses_bodyTurn :
    Progresses tokens.length tokens.length (reading.bodyTurn tokens) := by
  intro rule position
  have skipped := within_stopAt tokens [.semicolon, .closeBrace] (position + 1)
  have property := reading.within_propertyAt tokens rule
  simp only [bodyTurn]
  split
  case h_1 => exact .stay ..
  case h_2 t here =>
    have inside := lt_length_of_getElem? here
    have step : Within tokens.length position (position + 1) := .step inside
    split
    case h_1 => exact step
    case h_2 => exact ⟨inside, Nat.lt_succ_self position, step⟩
    case h_3 => exact ⟨inside, (property t (position + 1)).1, step.trans (property t _)⟩
    case h_4 => exact ⟨inside, skipped.1, step.trans skipped⟩

def bodyAt (rule : Rule) (position : Nat) : Reached Rule :=
  loop (reading.bodyTurn tokens) (reading.progresses_bodyTurn tokens) rule position

private theorem within_bodyAt (rule : Rule) (position : Nat) :
    Within tokens.length position (reading.bodyAt tokens rule position).position :=
  within_loop (reading.progresses_bodyTurn tokens) rule position

/-! ## Selectors -/

/-- The position behind the block that follows, or behind the statement if no block is opened. A
block that is not closed leads past the end. -/
def blockEnd (position : Nat) : Nat :=
  let found := stopAt tokens [.semicolon, .openBrace, .closeBrace] position
  match tokens[found]? with
  | none => found
  | some t => if t.kind = .openBrace then stopAt tokens [.closeBrace] found + 1 else found + 1

theorem within_blockEnd (position : Nat) :
    Within (tokens.length + 1) position (blockEnd tokens position) := by
  have found := within_stopAt tokens [.semicolon, .openBrace, .closeBrace] position
  have closed := within_stopAt tokens [.closeBrace]
    (stopAt tokens [.semicolon, .openBrace, .closeBrace] position)
  unfold blockEnd
  dsimp only
  split
  case h_1 => exact found.mono (Nat.le_succ _)
  case h_2 t here =>
    have inside := lt_length_of_getElem? here
    simp only [Within] at found closed ⊢
    split <;> omega

private theorem lt_blockEnd {position : Nat} (inside : position < tokens.length) :
    position < blockEnd tokens position := by
  have found := (within_stopAt tokens [.semicolon, .openBrace, .closeBrace] position).1
  have closed := (within_stopAt tokens [.closeBrace]
    (stopAt tokens [.semicolon, .openBrace, .closeBrace] position)).1
  unfold blockEnd
  dsimp only
  split
  case h_1 last => exact Nat.lt_of_lt_of_le inside (List.getElem?_eq_none_iff.mp last)
  case h_2 => split <;> omega

def abandonAt (problem : Problem) (position : Nat) : Reached (Option Rule) :=
  ⟨none, [problem.diagnosedAt (reading.here (tokens.drop position))], blockEnd tokens position⟩

/-- A turn over a class or an id of a selector, after the mark in front of its name. -/
def partTurn (missing : Problem) (update : String → Rule) (position : Nat) :
    Turn Rule (Option Rule) :=
  match tokens[position]? with
  | none => .leave (reading.abandonAt tokens missing position)
  | some n =>
    if n.kind = .identifier then .again (update n.text) [] (position + 1)
    else .leave (reading.abandonAt tokens missing position)

/-- A turn over the parts of a selector. -/
def selectorTurn (rule : Rule) (position : Nat) : Turn Rule (Option Rule) :=
  match tokens[position]? with
  | none => .leave (reading.abandonAt tokens (.unopenedBlock rule.selectorText) position)
  | some t =>
    match t.kind with
    | .dot =>
      reading.partTurn tokens .missingClassName (fun name => { rule with «class» := some name })
        (position + 1)
    | .hash =>
      reading.partTurn tokens .missingIdName (fun name => { rule with id := some name })
        (position + 1)
    | .openBrace => .leave ⟨some rule, [], position + 1⟩
    | _ =>
      if t.kind = .selectorParameter ∧ rule.parameter = none then
        .again { rule with parameter := some t.text } [] (position + 1)
      else .leave (reading.abandonAt tokens (.unopenedBlock rule.selectorText) position)

private theorem leads_partTurn (missing : Problem) (update : String → Rule) {position : Nat}
    (mark : position < tokens.length) :
    (reading.partTurn tokens missing update (position + 1)).Leads tokens.length
      (tokens.length + 1) position := by
  have step : Within (tokens.length + 1) position (position + 1) := .step (Nat.lt_succ_of_lt mark)
  have skipped := step.trans (within_blockEnd tokens (position + 1))
  unfold partTurn
  split
  case h_1 => exact skipped
  case h_2 n here =>
    split
    case isTrue =>
      have next := Within.step (Nat.lt_succ_of_lt (lt_length_of_getElem? here))
      exact ⟨mark, Nat.lt_succ_of_lt (Nat.lt_succ_self position), step.trans next⟩
    case isFalse => exact skipped

theorem progresses_selectorTurn :
    Progresses tokens.length (tokens.length + 1) (reading.selectorTurn tokens) := by
  intro rule position
  have skipped := within_blockEnd tokens position
  simp only [selectorTurn]
  split
  case h_1 => exact skipped
  case h_2 t here =>
    have inside := lt_length_of_getElem? here
    have step : Within (tokens.length + 1) position (position + 1) :=
      .step (Nat.lt_succ_of_lt inside)
    split
    case h_1 | h_2 => exact reading.leads_partTurn tokens _ _ inside
    case h_3 => exact step
    case h_4 =>
      split
      case isTrue => exact ⟨inside, Nat.lt_succ_self position, step⟩
      case isFalse => exact skipped

private theorem lt_of_selectorTurn_leave {rule : Rule} {position : Nat} {reached : Reached (Option Rule)}
    (inside : position < tokens.length)
    (taken : reading.selectorTurn tokens rule position = .leave reached) :
    position < reached.position := by
  have skipped := lt_blockEnd tokens inside
  have part (missing : Problem) (update : String → Rule)
      (taken : reading.partTurn tokens missing update (position + 1) = .leave reached) :
      position < reached.position := by
    have behind := (within_blockEnd tokens (position + 1)).1
    unfold partTurn at taken
    split at taken
    case h_1 => cases taken; exact behind
    case h_2 =>
      split at taken <;> cases taken
      exact behind
  simp only [selectorTurn] at taken
  split at taken
  case h_1 => cases taken; exact skipped
  case h_2 t here =>
    split at taken
    case h_1 | h_2 => exact part _ _ taken
    case h_3 => cases taken; exact Nat.lt_succ_self position
    case h_4 =>
      split at taken <;> cases taken
      exact skipped

def partsAt (rule : Rule) (position : Nat) : Reached (Option Rule) :=
  loop (reading.selectorTurn tokens) (reading.progresses_selectorTurn tokens) rule position

private theorem within_partsAt (rule : Rule) (position : Nat) :
    Within (tokens.length + 1) position (reading.partsAt tokens rule position).position :=
  within_loop (reading.progresses_selectorTurn tokens) rule position

private theorem lt_position_partsAt (rule : Rule) {position : Nat} (inside : position < tokens.length) :
    position < (reading.partsAt tokens rule position).position :=
  lt_position_loop (reading.progresses_selectorTurn tokens)
    fun _ taken => reading.lt_of_selectorTurn_leave tokens inside taken

/-- Read the selector of a rule from its first token. -/
def selectorAt (start : Token) (position : Nat) : Reached (Option Rule) :=
  let location := reading.locate start
  if isRuleName start then reading.partsAt tokens { name := start.text, location } (position + 1)
  else reading.partsAt tokens { name := "", location } position

private theorem within_selectorAt (start : Token) {position : Nat} (inside : position < tokens.length) :
    Within (tokens.length + 1) (position + 1)
      (reading.selectorAt tokens start position).position := by
  unfold selectorAt
  dsimp only
  split
  case isTrue => exact reading.within_partsAt tokens _ (position + 1)
  case isFalse =>
    exact (reading.within_partsAt tokens _ position).behind
      (reading.lt_position_partsAt tokens _ inside)

/-! ## Statements -/

/-- Read a rule from its first token. One without a name, class and id is reported and kept. -/
def ruleAt (start : Token) (position : Nat) : Reached (Option Rule) :=
  let selector := reading.selectorAt tokens start position
  match selector.result with
  | none => selector
  | some rule =>
    let missing :=
      if rule.name = "" ∧ rule.id = none ∧ rule.«class» = none then
        [Problem.missingSelector.diagnosedAt (reading.locate start)]
      else []
    ((reading.bodyAt tokens rule selector.position).map some).after (selector.problems ++ missing)

private theorem within_ruleAt (start : Token) {position : Nat} (inside : position < tokens.length) :
    Within (tokens.length + 1) (position + 1) (reading.ruleAt tokens start position).position := by
  have selector := reading.within_selectorAt tokens start inside
  unfold ruleAt
  dsimp only
  split
  case h_1 => exact selector
  case h_2 rule found =>
    exact selector.trans ((reading.within_bodyAt tokens rule _).mono (Nat.le_succ _))

/-- Go past the semicolon after an import, over whatever stands before it. -/
def importEndAt (position : Nat) : Reached Unit :=
  match tokens[position]? with
  | none => ⟨(), [], position⟩
  | some t =>
    if t.kind = .semicolon then ⟨(), [], position + 1⟩
    else
      ⟨(), [Problem.unfinishedImport.diagnosedAt (reading.locate t)],
        stopAt tokens [.semicolon] position + 1⟩

/-- Going past what is skipped leads at most one place behind the last token. -/
theorem within_stopAt_succ (stops : List TokenKind) {position : Nat}
    (inside : position ≤ tokens.length) :
    Within (tokens.length + 1) position (stopAt tokens stops position + 1) := by
  have skipped := within_stopAt tokens stops position
  simp only [Within] at skipped ⊢
  omega

private theorem within_importEndAt (position : Nat) :
    Within (tokens.length + 1) position (reading.importEndAt tokens position).position := by
  unfold importEndAt
  split
  case h_1 => exact .stay ..
  case h_2 t here =>
    have inside := lt_length_of_getElem? here
    split
    case isTrue => exact .step (Nat.lt_succ_of_lt inside)
    case isFalse => exact within_stopAt_succ tokens _ (Nat.le_of_lt inside)

/-- Read a directive after its first token. -/
def directiveAt (start : Token) (position : Nat) : Reached (Option Statement) :=
  let location := reading.locate start
  if start.text ≠ "import" then
    ⟨none, [(Problem.unknownDirective start.text).diagnosedAt location],
      stopAt tokens [.semicolon] position + 1⟩
  else
    let target := reading.valueAt tokens position
    let ending := reading.importEndAt tokens target.position
    if target.result = "" then
      ⟨none, ending.problems ++ [Problem.importWithoutTarget.diagnosedAt location],
        ending.position⟩
    else ending.map fun _ => some (.importFile target.result location)

private theorem within_directiveAt (start : Token) {position : Nat} (inside : position ≤ tokens.length) :
    Within (tokens.length + 1) position (reading.directiveAt tokens start position).position := by
  have value : Within tokens.length position (reading.valueAt tokens position).position :=
    within_valueEnd tokens position
  have ending := (value.mono (Nat.le_succ _)).trans
    (reading.within_importEndAt tokens (reading.valueAt tokens position).position)
  unfold directiveAt
  dsimp only
  split
  case isTrue => exact within_stopAt_succ tokens _ inside
  case isFalse =>
    split
    case isTrue => exact ending
    case isFalse => exact ending

/-- A turn over the statements of a text. -/
def statementsTurn (found : List Statement) (position : Nat) :
    Turn (List Statement) (List Statement) :=
  match tokens[position]? with
  | none => .leave ⟨found, [], position⟩
  | some t =>
    match t.kind with
    | .semicolon => .again found [] (position + 1)
    | .directive =>
      let next := reading.directiveAt tokens t (position + 1)
      .again (found ++ next.result.toList) next.problems next.position
    | _ =>
      let next := reading.ruleAt tokens t position
      .again (found ++ (next.result.map Statement.rule).toList) next.problems next.position

theorem progresses_statementsTurn :
    Progresses tokens.length (tokens.length + 1) (reading.statementsTurn tokens) := by
  intro found position
  simp only [statementsTurn]
  split
  case h_1 => exact .stay ..
  case h_2 t here =>
    have inside := lt_length_of_getElem? here
    have step : Within (tokens.length + 1) position (position + 1) :=
      .step (Nat.lt_succ_of_lt inside)
    split
    case h_1 => exact ⟨inside, Nat.lt_succ_self position, step⟩
    case h_2 =>
      have directive := reading.within_directiveAt tokens t inside
      exact ⟨inside, directive.1, step.trans directive⟩
    case h_3 =>
      have rule := reading.within_ruleAt tokens t inside
      exact ⟨inside, rule.1, step.trans rule⟩

def statementsAt (position : Nat) : Reached (List Statement) :=
  loop (reading.statementsTurn tokens) (reading.progresses_statementsTurn tokens) [] position

theorem within_statementsAt (position : Nat) :
    Within (tokens.length + 1) position (reading.statementsAt tokens position).position :=
  within_loop (reading.progresses_statementsTurn tokens) [] position

end Reading

end PackageSheet
