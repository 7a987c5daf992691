import PackageSheet.Sheet.Reading

namespace PackageSheet.Reading

/-- The characters between two byte offsets of a text that starts at a third. -/
def slice (start stop : Nat) : Nat → List Char → List Char
  | _, [] => []
  | offset, c :: cs =>
    if offset < start then slice start stop (offset + c.utf8Size) cs
    else if offset < stop then c :: slice start stop (offset + c.utf8Size) cs
    else []

/-- The tokens of a value and those after it. A value ends before a comma, a semicolon or a
brace, except inside a group, which a dollar sign and a brace open and the next closing brace
ends. -/
def splitValue : Bool → List Token → List Token × List Token
  | _, [] => ([], [])
  | true, t :: ts =>
    let (taken, rest) := splitValue (t.kind != .closeBrace) ts
    (t :: taken, rest)
  | false, t :: ts =>
    match t.kind with
    | .comma | .semicolon | .closeBrace | .openBrace => ([], t :: ts)
    | _ =>
      let group := t.kind == .symbol && t.text == "$" && nextIs .openBrace ts
      let (taken, rest) := splitValue group ts
      (t :: taken, rest)

/-- The text of a value: literals are joined, and anything else is taken as it is written from
the first token to the last. -/
def valueText (reading : Reading) (tokens : List Token) : String :=
  match tokens, tokens.getLast? with
  | first :: _, some last =>
    if tokens.all Token.isString then String.join (tokens.map (·.text))
    else String.ofList (Text.trim (slice first.start last.stop 0 reading.source))
  | _, _ => ""

def value (reading : Reading) (tokens : List Token) : Outcome String :=
  let (taken, rest) := splitValue false tokens
  ⟨reading.valueText taken, [], rest⟩

private theorem length_splitValue_le (group : Bool) (tokens : List Token) :
    (splitValue group tokens).2.length ≤ tokens.length := by
  fun_induction splitValue group tokens <;> simp_all <;> omega

theorem length_value_le (reading : Reading) (tokens : List Token) :
    (reading.value tokens).rest.length ≤ tokens.length :=
  length_splitValue_le false tokens

/-- Read values between commas; an empty one is passed over. -/
def values (reading : Reading) (tokens : List Token) : Outcome (List String) :=
  let first := reading.value tokens
  let found := if first.result = "" then [] else [first.result]
  if _comma : nextIs .comma first.rest then
    (values reading (first.rest.drop 1)).map (found ++ ·)
  else ⟨found, [], first.rest⟩
termination_by tokens.length
decreasing_by
  exact Nat.lt_of_lt_of_le (length_drop_lt_of_nextIs _comma) (reading.length_value_le tokens)

theorem length_values_le (reading : Reading) (tokens : List Token) :
    (reading.values tokens).rest.length ≤ tokens.length := by
  fun_induction values reading tokens with
  | case1 tokens first found comma ih =>
    have : first.rest.length ≤ tokens.length := reading.length_value_le tokens
    simp only [Outcome.rest_map, List.length_drop] at ih ⊢
    omega
  | case2 tokens first found other => exact reading.length_value_le tokens

end PackageSheet.Reading
