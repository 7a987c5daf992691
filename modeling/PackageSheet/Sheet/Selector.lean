import PackageSheet.Sheet.Reading

namespace PackageSheet.Reading

def abandon (reading : Reading) (problem : Problem) (tokens : List Token) :
    Outcome (Option Rule) :=
  ⟨none, [problem.diagnosedAt (reading.here tokens)], skipBlock tokens⟩

/-- Read the parts of a selector after its name, up to and with the opening brace. -/
def selectorParts (reading : Reading) (rule : Rule) : List Token → Outcome (Option Rule)
  | [] => reading.abandon (.unopenedBlock rule.selectorText) []
  | t :: ts =>
    match t.kind with
    | .dot =>
      match ts with
      | n :: ns =>
        if n.kind = .identifier then
          selectorParts reading { rule with «class» := some n.text } ns
        else reading.abandon .missingClassName (n :: ns)
      | [] => reading.abandon .missingClassName []
    | .hash =>
      match ts with
      | n :: ns =>
        if n.kind = .identifier then selectorParts reading { rule with id := some n.text } ns
        else reading.abandon .missingIdName (n :: ns)
      | [] => reading.abandon .missingIdName []
    | .openBrace => ⟨some rule, [], ts⟩
    | _ =>
      if t.kind = .selectorParameter ∧ rule.parameter = none then
        selectorParts reading { rule with parameter := some t.text } ts
      else reading.abandon (.unopenedBlock rule.selectorText) (t :: ts)

private theorem length_abandon_le (reading : Reading) (problem : Problem) (tokens : List Token) :
    (reading.abandon problem tokens).rest.length ≤ tokens.length - 1 :=
  length_skipBlock_le tokens

/-- Reading a selector takes at least one token, if there is one. -/
theorem length_selectorParts_le (reading : Reading) (rule : Rule) (tokens : List Token) :
    (selectorParts reading rule tokens).rest.length ≤ tokens.length - 1 := by
  have skipped := reading.length_abandon_le
  fun_induction selectorParts reading rule tokens with
  | case1 => exact skipped _ _
  | case2 | case5 => simp_all; omega
  | case3 | case6 => refine Nat.le_trans (skipped _ _) ?_; simp
  | case4 | case7 => exact skipped _ _
  | case8 => simp
  | case9 => simp_all; omega
  | case10 => exact skipped _ _

end PackageSheet.Reading
