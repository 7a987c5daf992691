import PackageSheet.Proofs.Sheet.Grammar

namespace PackageSheet

open Grammar

theorem Grammar.Value.congr {first second : Prop} {v : List Token} (same : first ↔ second)
    (value : Value first v) : Value second v :=
  propext same ▸ value

theorem Grammar.Values.congr {first second : Prop} {vs : List Token} (same : first ↔ second)
    (values : Values first vs) : Values second vs :=
  propext same ▸ values

private theorem Grammar.Value.not_separates {final : Prop} {v : List Token} (value : Value final v) :
    ∀ t ∈ v.head?, ¬ Separates t := by
  cases value with
  | nil => simp
  | token inside rest => simpa using inside
  | group sign | openGroup last sign => simp [Separates, sign.1]

/-- A comma, a semicolon or a closing brace: what ends a value for good. -/
def Grammar.Ends (t : Token) : Prop :=
  t.kind = .comma ∨ t.kind = .semicolon ∨ t.kind = .closeBrace

namespace Reading

variable {final : Prop} {reading : Reading} {t dollar opening closing comma : Token}
  {ts v vs within rest tokens : List Token}

theorem nextIs_iff {kind : TokenKind} :
    nextIs kind tokens = true ↔ ∃ t ts, tokens = t :: ts ∧ t.kind = kind := by
  cases tokens <;> simp [nextIs]

theorem splitValue_separator (separates : Separates t) :
    splitValue false (t :: ts) = ([], t :: ts) := by
  rcases separates with kind | kind | kind | kind <;> simp [splitValue, kind]

theorem splitValue_token (inside : ¬ Separates t) :
    splitValue false (t :: ts) =
      (t :: (splitValue (t.kind == .symbol && t.text == "$" && nextIs .openBrace ts) ts).1,
        (splitValue (t.kind == .symbol && t.text == "$" && nextIs .openBrace ts) ts).2) := by
  rw [splitValue]
  split <;> simp_all [Separates]

private theorem splitValue_group (inside : ∀ t ∈ within, t.kind ≠ .closeBrace)
    (closes : closing.kind = .closeBrace) :
    splitValue true (within ++ closing :: ts) =
      (within ++ closing :: (splitValue false ts).1, (splitValue false ts).2) := by
  induction within with
  | nil => simp [splitValue, closes]
  | cons t within ih =>
    obtain ⟨first, others⟩ := List.forall_mem_cons.mp inside
    rw [List.cons_append, splitValue, bne_iff_ne.mpr first, ih others]
    rfl

private theorem splitValue_openGroup (inside : ∀ t ∈ within, t.kind ≠ .closeBrace) :
    splitValue true within = (within, []) := by
  induction within with
  | nil => rfl
  | cons t within ih =>
    obtain ⟨first, others⟩ := List.forall_mem_cons.mp inside
    rw [splitValue, bne_iff_ne.mpr first, ih others]

private theorem splitValue_dollar (sign : IsDollar dollar) (opens : opening.kind = .openBrace) :
    splitValue false (dollar :: opening :: ts) =
      (dollar :: (splitValue true (opening :: ts)).1, (splitValue true (opening :: ts)).2) := by
  have inside : ¬ Separates dollar := by simp [Separates, sign.1]
  rw [splitValue_token inside]
  simp [sign.1, sign.2, nextIs, opens]

private theorem splitValue_append (value : Value final v) (last : final → rest = [])
    (ended : ∀ t ∈ rest.head?, Ends t) : splitValue false (v ++ rest) = (v, rest) := by
  induction value with
  | nil =>
    cases rest with
    | nil => rfl
    | cons t rest =>
      refine splitValue_separator ?_
      rcases ended t rfl with kind | kind | kind <;> simp [Separates, kind]
  | @token t ts inside after ih =>
    have plain : nextIs .openBrace (ts ++ rest) = false := by
      cases ts with
      | nil =>
        cases rest with
        | nil => rfl
        | cons next rest => rcases ended next rfl with kind | kind | kind <;> simp [nextIs, kind]
      | cons next ts =>
        have := after.not_separates next rfl
        simp_all [nextIs, Separates]
    rw [List.cons_append, splitValue_token inside, plain, Bool.and_false, ih]
  | @group dollar opening closing within ts sign opens inside closes after ih =>
    have longer : ∀ t ∈ opening :: within, t.kind ≠ .closeBrace := by simpa [opens] using inside
    have group := @splitValue_group closing (ts ++ rest) (opening :: within) longer closes
    rw [List.cons_append] at group
    simp [splitValue_dollar sign opens, group, ih]
  | @openGroup dollar opening within here sign opens inside =>
    have longer : ∀ t ∈ opening :: within, t.kind ≠ .closeBrace := by simpa [opens] using inside
    rw [last here, List.append_nil, splitValue_dollar sign opens, splitValue_openGroup longer]

theorem splitValue_parts (group : Bool) (tokens : List Token) :
    (splitValue group tokens).1 ++ (splitValue group tokens).2 = tokens := by
  fun_induction splitValue group tokens <;> simp_all

theorem separates_of_splitValue {group : Bool} :
    ∀ t ∈ (splitValue group tokens).2.head?, Separates t := by
  fun_induction splitValue group tokens <;> simp_all [Separates]

/-- Some tokens go on as a value should, perhaps from inside a group. -/
def Continues (final : Prop) : Bool → List Token → Prop
  | false, v => Value final v
  | true, v =>
    (∃ within closing after, v = within ++ closing :: after ∧
      (∀ t ∈ within, t.kind ≠ .closeBrace) ∧ closing.kind = .closeBrace ∧ Value final after) ∨
      final ∧ ∀ t ∈ v, t.kind ≠ .closeBrace

private theorem Continues.cons (inside : t.kind ≠ .closeBrace) (rest : Continues final true v) :
    Continues final true (t :: v) := by
  rcases rest with ⟨within, closing, after, rfl, other, closes, value⟩ | ⟨last, other⟩
  · exact .inl ⟨t :: within, closing, after, rfl, by simpa [inside] using other, closes, value⟩
  · exact .inr ⟨last, by simpa [inside] using other⟩

private theorem Continues.group (sign : IsDollar dollar) (opens : opening.kind = .openBrace)
    (rest : Continues final true (opening :: v)) : Value final (dollar :: opening :: v) := by
  rcases rest with ⟨within, closing, after, split, inside, closes, value⟩ | ⟨last, inside⟩
  · cases within with
    | nil =>
      obtain ⟨rfl, -⟩ := List.cons.inj split
      rw [opens] at closes
      cases closes
    | cons first within =>
      obtain ⟨rfl, rfl⟩ := List.cons.inj split
      exact .group sign opens (fun t member => inside t (.tail _ member)) closes value
  · exact .openGroup last sign opens fun t member => inside t (.tail _ member)

private theorem continues_splitValue (group : Bool) (tokens : List Token) :
    Continues ((splitValue group tokens).2 = []) group (splitValue group tokens).1 := by
  fun_induction splitValue group tokens with
  | case1 group =>
    cases group with
    | false => exact .nil
    | true => exact .inr ⟨rfl, List.forall_mem_nil _⟩
  | case2 t ts taken rest found ih =>
    rw [found] at ih
    by_cases closes : t.kind = .closeBrace
    · rw [bne_eq_false_iff_eq.mpr closes] at ih
      exact .inl ⟨[], t, taken, rfl, List.forall_mem_nil _, closes, ih⟩
    · rw [bne_iff_ne.mpr closes] at ih
      exact ih.cons closes
  | case3 | case4 | case5 | case6 => exact .nil
  | case7 t ts group taken rest found comma semicolon closing opening ih =>
    rw [found] at ih
    cases opened : group with
    | false =>
      rw [opened] at ih
      exact .token (by simp_all [Separates]) ih
    | true =>
      rw [opened] at ih found
      simp only [group, Bool.and_eq_true, beq_iff_eq] at opened
      obtain ⟨next, ts, rfl, opens⟩ := nextIs_iff.mp opened.2
      rw [splitValue] at found
      cases found
      exact ih.group opened.1 opens

/-- What is taken for a value is one. -/
theorem value_splitValue (tokens : List Token) :
    Value ((splitValue false tokens).2 = []) (splitValue false tokens).1 :=
  continues_splitValue false tokens

/-- A value is read as a whole, if what follows ends it. -/
theorem value_append (value : Value final v) (last : final → rest = [])
    (ended : ∀ t ∈ rest.head?, Ends t) :
    reading.value (v ++ rest) = ⟨reading.valueText v, [], rest⟩ := by
  simp [Reading.value, splitValue_append value last ended]

/-- The values that a text stands for: one, if it is not empty. -/
def listed (text : String) : List String :=
  if text = "" then [] else [text]

theorem values_one (value : Value final v) (last : final → rest = [])
    (ended : ∀ t ∈ rest.head?, t.kind = .semicolon ∨ t.kind = .closeBrace) :
    reading.values (v ++ rest) = ⟨listed (reading.valueText v), [], rest⟩ := by
  have stop : nextIs .comma rest = false := by
    cases rest with
    | nil => rfl
    | cons t rest => rcases ended t rfl with kind | kind <;> simp [nextIs, kind]
  rw [values, value_append value last fun t first => .inr (ended t first)]
  simp only [stop]
  rfl

theorem values_more (value : Value False v) (sep : comma.kind = .comma) :
    reading.values (v ++ comma :: ts) =
      (reading.values ts).map (listed (reading.valueText v) ++ ·) := by
  rw [values, value_append value False.elim (by simp [Ends, sep])]
  simp [nextIs, sep, listed]

/-- Values are read as a whole, if what follows ends them, and whatever it is. -/
theorem values_append (values : Values final vs) (last : final → rest = [])
    (ended : ∀ t ∈ rest.head?, t.kind = .semicolon ∨ t.kind = .closeBrace) :
    reading.values (vs ++ rest) = ⟨(reading.values vs).result, [], rest⟩ := by
  induction values with
  | one value =>
    have alone := @values_one _ reading _ [] value (fun _ => rfl) (by simp)
    rw [List.append_nil] at alone
    rw [values_one value last ended, alone]
  | more value sep more ih =>
    rw [List.append_assoc, List.cons_append, values_more value sep, values_more value sep, ih]
    rfl

/-- What is read as values are values, up to a semicolon, a brace or the end. -/
theorem values_read (tokens : List Token) :
    ∃ vs, tokens = vs ++ (reading.values tokens).rest ∧
      Values ((reading.values tokens).rest = []) vs ∧
      ∀ t ∈ (reading.values tokens).rest.head?, Separates t ∧ t.kind ≠ .comma := by
  fun_induction values reading tokens with
  | case1 tokens first found comma ih =>
    obtain ⟨next, ts, commaFirst, sep⟩ := nextIs_iff.mp comma
    have value : Value (first.rest = []) (splitValue false tokens).1 := value_splitValue tokens
    obtain ⟨vs, split, rest, ends⟩ := ih
    refine ⟨(splitValue false tokens).1 ++ next :: vs, ?_, ?_, ends⟩
    · calc
        tokens = (splitValue false tokens).1 ++ first.rest := (splitValue_parts false tokens).symm
        _ = (splitValue false tokens).1 ++ next :: first.rest.drop 1 := by rw [commaFirst]; rfl
        _ = _ := by
          rw [Outcome.rest_map, List.append_assoc, List.cons_append, ← split]
    · exact .more (value.congr (by simp [commaFirst])) sep rest
  | case2 tokens first found other =>
    refine ⟨(splitValue false tokens).1, (splitValue_parts false tokens).symm,
      .one (value_splitValue tokens), fun t follows => ⟨separates_of_splitValue t follows, ?_⟩⟩
    intro comma
    refine other (nextIs_iff.mpr ?_)
    obtain ⟨ts, same⟩ := List.head?_eq_some_iff.mp follows
    exact ⟨t, ts, same, comma⟩

end Reading

end PackageSheet
