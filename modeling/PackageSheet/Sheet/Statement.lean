import PackageSheet.Sheet.Body
import PackageSheet.Sheet.Selector

/-!
Reading the statements of a sheet text: rules, and imports, which are not followed here. Reading
never fails; it comes to an end because each statement takes at least one token.
-/

namespace PackageSheet

/-- A statement of a sheet text: a rule, or the import of another file as it is written. -/
inductive Statement where
  | rule (rule : Rule)
  | importFile (target : String) (location : Location)
deriving DecidableEq

namespace Reading

/-- Go past the semicolon after an import, over whatever stands before it. -/
def importEnd (reading : Reading) (tokens : List Token) : Outcome Unit :=
  if tokens.isEmpty || nextIs .semicolon tokens then ⟨(), [], tokens.drop 1⟩
  else ⟨(), [Problem.unfinishedImport.diagnosedAt (reading.here tokens)],
    skipPast [.semicolon] tokens⟩

/-- Read a directive after its first token. -/
def directive (reading : Reading) (start : Token) (tokens : List Token) :
    Outcome (Option Statement) :=
  let location := reading.locate start
  if start.text ≠ "import" then
    ⟨none, [(Problem.unknownDirective start.text).diagnosedAt location],
      skipPast [.semicolon] tokens⟩
  else
    let target := reading.value tokens
    let ending := reading.importEnd target.rest
    if target.result = "" then
      ⟨none, ending.problems ++ [Problem.importWithoutTarget.diagnosedAt location], ending.rest⟩
    else ending.map fun _ => some (.importFile target.result location)

/-- Whether a token is the name of a rule: an identifier or a star. -/
def isRuleName (t : Token) : Bool :=
  t.kind == .identifier || (t.kind == .symbol && t.text == "*")

/-- Read the selector of a rule, its first token at hand. -/
def selector (reading : Reading) (start : Token) (tokens : List Token) :
    Outcome (Option Rule) :=
  let location := reading.locate start
  if isRuleName start then reading.selectorParts { name := start.text, location } tokens
  else reading.selectorParts { name := "", location } (start :: tokens)

/-- Read a rule, its first token at hand. One without a name, class and id is reported and
kept. -/
def rule (reading : Reading) (start : Token) (tokens : List Token) : Outcome (Option Rule) :=
  let selector := reading.selector start tokens
  match selector.result with
  | none => selector
  | some rule =>
    let missing :=
      if rule.name = "" ∧ rule.id = none ∧ rule.«class» = none then
        [Problem.missingSelector.diagnosedAt (reading.locate start)]
      else []
    ((reading.body rule selector.rest).map some).after (selector.problems ++ missing)

private theorem length_directive_le (reading : Reading) (start : Token) (tokens : List Token) :
    (reading.directive start tokens).rest.length ≤ tokens.length := by
  have value := reading.length_value_le tokens
  have past := length_skipPast_le [.semicolon]
  have ending (tokens : List Token) : (reading.importEnd tokens).rest.length ≤ tokens.length := by
    have := past tokens
    unfold importEnd
    split
    · simp
    · dsimp only
      omega
  unfold directive
  dsimp only
  split
  · exact Nat.le_trans (past _) (Nat.sub_le ..)
  · split <;> exact Nat.le_trans (ending _) value

theorem length_rule_le (reading : Reading) (start : Token) (tokens : List Token) :
    (reading.rule start tokens).rest.length ≤ tokens.length := by
  have selector : (reading.selector start tokens).rest.length ≤ tokens.length := by
    unfold Reading.selector
    dsimp only
    split
    · exact Nat.le_trans (reading.length_selectorParts_le ..) (Nat.sub_le ..)
    · exact reading.length_selectorParts_le ..
  unfold Reading.rule
  dsimp only
  split
  · exact selector
  · exact Nat.le_trans (reading.length_body_le ..) selector

/-- Read the statements of a text to its end. -/
def statements (reading : Reading) (tokens : List Token) : Outcome (List Statement) :=
  match tokens with
  | [] => ⟨[], [], []⟩
  | t :: ts =>
    match t.kind with
    | .semicolon => statements reading ts
    | .directive =>
      let found := reading.directive t ts
      ((statements reading found.rest).map (found.result.toList ++ ·)).after found.problems
    | _ =>
      let found := reading.rule t ts
      ((statements reading found.rest).map
        ((found.result.map Statement.rule).toList ++ ·)).after found.problems
termination_by tokens.length
decreasing_by
  · simp
  · exact Nat.lt_of_le_of_lt (reading.length_directive_le t ts) (by simp)
  · exact Nat.lt_of_le_of_lt (reading.length_rule_le t ts) (by simp)

end Reading

/-- Read a text into its statements. Tokens of no known class are reported first and left out;
whatever else is wrong is reported in the order of the text, and reading goes on after it. -/
def Statement.ofText (text : String) (file : Option Path) : List Statement × List Diagnostic :=
  let tokens := Token.ofText .hyphenated text
  let known := tokens.filter (·.kind != .unknown)
  let reading : Reading := ⟨text.toList, file, known.getLast?⟩
  let anomalies := (tokens.filter (·.kind == .unknown)).map fun t =>
    (Problem.unrecognizedText t.text).diagnosedAt (reading.locate t)
  let found := reading.statements known
  (found.result, anomalies ++ found.problems)

end PackageSheet
