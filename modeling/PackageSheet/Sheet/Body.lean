import PackageSheet.Sheet.Value

namespace PackageSheet.Reading

/-- Read one property of a rule after its name. Without a colon it is left out. -/
def property (reading : Reading) (rule : Rule) (name : Token) (tokens : List Token) :
    Outcome Rule :=
  if !nextIs .colon tokens then
    ⟨rule, [(Problem.missingColon name.text).diagnosedAt (reading.here tokens)],
      skipTo [.semicolon, .closeBrace] tokens⟩
  else
    let found := reading.values (tokens.drop 1)
    let declared := rule.declare name.text found.result (reading.locate name)
    match found.rest with
    | [] => ⟨declared, [], []⟩
    | t :: ts =>
      if t.kind = .semicolon ∨ t.kind = .closeBrace then ⟨declared, [], t :: ts⟩
      else
        ⟨declared, [(Problem.unfinishedProperty name.text).diagnosedAt (reading.locate t)],
          skipTo [.semicolon, .closeBrace] (t :: ts)⟩

theorem length_property_le (reading : Reading) (rule : Rule) (name : Token)
    (tokens : List Token) : (reading.property rule name tokens).rest.length ≤ tokens.length := by
  have skipped := length_skipTo_le [.semicolon, .closeBrace]
  have found := reading.length_values_le (tokens.drop 1)
  have shorter : (tokens.drop 1).length ≤ tokens.length := by simp
  unfold property
  split
  · exact skipped _
  · dsimp only
    split
    · simp
    · rename_i t ts h
      rw [h] at found
      split
      · exact Nat.le_trans found shorter
      · exact Nat.le_trans (skipped _) (Nat.le_trans found shorter)

/-- Read the properties of a rule up to and with its closing brace. -/
def body (reading : Reading) (rule : Rule) (tokens : List Token) : Outcome Rule :=
  match tokens with
  | [] => ⟨rule, [(Problem.unfinishedRule rule.selectorText).diagnosedAt (reading.here [])], []⟩
  | t :: ts =>
    match t.kind with
    | .closeBrace => ⟨rule, [], ts⟩
    | .semicolon => body reading rule ts
    | .identifier =>
      let found := reading.property rule t ts
      (body reading found.result found.rest).after found.problems
    | _ =>
      (body reading rule (skipTo [.semicolon, .closeBrace] ts)).after
        [Problem.missingPropertyName.diagnosedAt (reading.locate t)]
termination_by tokens.length
decreasing_by
  · simp
  · exact Nat.lt_of_le_of_lt (reading.length_property_le rule t ts) (by simp)
  · exact Nat.lt_of_le_of_lt (length_skipTo_le [.semicolon, .closeBrace] ts) (by simp)

theorem length_body_le (reading : Reading) (rule : Rule) (tokens : List Token) :
    (reading.body rule tokens).rest.length ≤ tokens.length := by
  fun_induction body reading rule tokens with
  | case1 => simp
  | case2 => simp
  | case3 rule t ts kind ih => simp only [List.length_cons]; omega
  | case4 rule t ts kind found ih =>
    have : found.rest.length ≤ ts.length := reading.length_property_le rule t ts
    simp only [Outcome.rest_after, List.length_cons]
    omega
  | case5 rule t ts _ _ _ ih =>
    have := length_skipTo_le [.semicolon, .closeBrace] ts
    simp only [Outcome.rest_after, List.length_cons]
    omega

end PackageSheet.Reading
