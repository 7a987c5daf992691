import PackageSheet.Proofs.Path.Components

namespace PackageSheet.Path

/-- A text that can be a step of a path as it is. -/
def IsBare (text : List Char) : Prop :=
  text ≠ [] ∧ '/' ∉ text

theorem IsName.isBare {text : List Char} (own : IsName text) : IsBare text :=
  ⟨own.ne_nil, own.bare⟩

variable {base : Path} {step : String} {steps : List String}

theorem intercalate_cons (first : List Char) (rest : List (List Char)) :
    ['/'].intercalate (first :: rest) = first ++ rest.flatMap ('/' :: ·) := by
  induction rest generalizing first with
  | nil => simp [List.intercalate]
  | cons second rest ih =>
    rw [List.intercalate_cons_cons, ih]
    simp

theorem isAbsolute_of_bare (bare : '/' ∉ step.toList) : (Path.mk step).isAbsolute = false := by
  unfold isAbsolute
  split
  · rename_i slash
    exact absurd (slash ▸ List.mem_cons_self) bare
  · rfl

theorem getLast?_of_isBare {text : List Char} (bare : IsBare text) (front : List Char) :
    (front ++ text).getLast? ≠ some '/' := by
  rw [List.getLast?_append, List.getLast?_eq_some_getLast bare.1, Option.some_or]
  intro last
  exact bare.2 (Option.some.inj last ▸ List.getLast_mem bare.1)

/-- A step behind a path that does not end in a slash is put behind a slash. -/
theorem text_join (bare : '/' ∉ step.toList) (filled : base.text.toList ≠ [])
    (openEnd : base.text.toList.getLast? ≠ some '/') :
    (base.join ⟨step⟩).text.toList = base.text.toList ++ '/' :: step.toList := by
  rcases join_cases base (isAbsolute_of_bare bare) with ⟨empty, -⟩ |
    ⟨cs, whole, -⟩ | ⟨-, -, joined⟩
  · exact absurd empty filled
  · exact absurd (by simp [whole]) openEnd
  · rw [joined, String.toList_ofList]

/-- A step behind the empty path or one that ends in a slash is put there as it is. -/
theorem text_join_of_closed (bare : '/' ∉ step.toList)
    (closed : base.text.toList = [] ∨ base.text.toList.getLast? = some '/') :
    (base.join ⟨step⟩).text.toList = base.text.toList ++ step.toList := by
  rcases join_cases base (isAbsolute_of_bare bare) with ⟨empty, joined⟩ |
    ⟨cs, whole, joined⟩ | ⟨filled, openEnd, -⟩
  · rw [joined, empty]
    rfl
  · rw [joined, String.toList_ofList, whole]
    simp
  · rcases closed with empty | slash
    · exact absurd empty filled
    · exact absurd slash openEnd

theorem exists_text_join (base : Path) (bare : '/' ∉ step.toList) :
    ∃ more, (base.join ⟨step⟩).text.toList = base.text.toList ++ more := by
  by_cases closed : base.text.toList = [] ∨ base.text.toList.getLast? = some '/'
  · exact ⟨_, text_join_of_closed bare closed⟩
  · obtain ⟨filled, openEnd⟩ := not_or.mp closed
    exact ⟨_, text_join bare filled openEnd⟩

theorem isAbsolute_iff_text : base.isAbsolute = true ↔ ∃ rest, base.text.toList = '/' :: rest := by
  unfold isAbsolute
  split
  · rename_i rest anchored
    exact iff_of_true rfl ⟨rest, anchored⟩
  · rename_i other
    exact iff_of_false nofun fun ⟨rest, anchored⟩ => other rest anchored

/-- A step behind a path does not change whether it is absolute. -/
theorem isAbsolute_join_eq (bare : '/' ∉ step.toList) :
    (base.join ⟨step⟩).isAbsolute = base.isAbsolute := by
  rw [Bool.eq_iff_iff, isAbsolute_iff_text, isAbsolute_iff_text]
  by_cases filled : base.text.toList = []
  · rw [text_join_of_closed bare (.inl filled), filled, List.nil_append]
    refine iff_of_false ?_ nofun
    rintro ⟨rest, anchored⟩
    exact bare (anchored ▸ List.mem_cons_self)
  · obtain ⟨c, cs, whole⟩ := List.exists_cons_of_ne_nil filled
    obtain ⟨more, joined⟩ := exists_text_join base bare
    rw [joined, whole]
    simp

/-- A step behind a path takes the place of an empty segment at the end, or comes last. -/
theorem segments_join (bare : '/' ∉ step.toList) (filled : base.text.toList ≠ []) :
    (∃ front, segments base.text.toList = front ++ [[]] ∧
      segments (base.join ⟨step⟩).text.toList = front ++ [step.toList]) ∨
    segments (base.join ⟨step⟩).text.toList = segments base.text.toList ++ [step.toList] := by
  by_cases closed : base.text.toList.getLast? = some '/'
  · obtain ⟨text, whole⟩ := List.getLast?_eq_some_iff.mp closed
    refine .inl ⟨segments text, ?_, ?_⟩
    · rw [whole, segments_slash]
      rfl
    · rw [text_join_of_closed bare (.inr closed), whole, List.append_assoc, List.singleton_append,
        segments_slash, segments_of_bare bare]
  · right
    rw [text_join bare filled closed, segments_slash, segments_of_bare bare]

theorem exists_segments_join (base : Path) (bare : '/' ∉ step.toList) :
    ∃ front, segments (base.join ⟨step⟩).text.toList = front ++ [step.toList] := by
  by_cases filled : base.text.toList = []
  · refine ⟨[], ?_⟩
    rw [text_join_of_closed bare (.inl filled), filled, List.nil_append, segments_of_bare bare]
    rfl
  · rcases segments_join bare filled with ⟨front, -, joined⟩ | joined
    · exact ⟨front, joined⟩
    · exact ⟨_, joined⟩

/-- A step behind a path adds the component that it is, if it is one. -/
theorem components_join_bare (bare : '/' ∉ step.toList) (filled : base.text.toList ≠ []) :
    (base.join ⟨step⟩).components = base.components ++ Path.steps [step.toList] := by
  have whole (text : List Char) (same : base.text.toList = text) :
      base = Path.mk (String.ofList text) := by
    rw [← same, String.ofList_toList]
  rcases join_cases base (isAbsolute_of_bare bare) with ⟨empty, -⟩ | ⟨cs, text, joined⟩ |
    ⟨-, -, joined⟩
  · exact absurd empty filled
  · have idle : Path.steps (segments []) = [] := by decide
    rw [joined, components_slash, segments_of_bare bare, whole _ text, components_slash, idle,
      List.append_nil]
  · rw [joined, components_slash, if_neg filled, segments_of_bare bare, ← whole _ rfl]

private theorem text_foldl_join_of_open (bare : ∀ step ∈ steps, IsBare step.toList)
    (filled : base.text.toList ≠ []) (openEnd : base.text.toList.getLast? ≠ some '/') :
    (steps.foldl (fun path step => path.join ⟨step⟩) base).text.toList =
      base.text.toList ++ (steps.map String.toList).flatMap ('/' :: ·) := by
  induction steps generalizing base with
  | nil => simp
  | cons step steps ih =>
    obtain ⟨own, later⟩ := List.forall_mem_cons.mp bare
    have joined := text_join own.2 filled openEnd
    have still : (base.join ⟨step⟩).text.toList.getLast? ≠ some '/' := by
      have last := getLast?_of_isBare own (base.text.toList ++ ['/'])
      rwa [joined, ← List.singleton_append, ← List.append_assoc]
    rw [List.foldl_cons, ih later (by simp [joined]) still, joined]
    simp

/-- Steps behind the empty path or one that ends in a slash, with a slash between them. -/
theorem text_foldl_join (bare : ∀ step ∈ steps, IsBare step.toList)
    (closed : base.text.toList = [] ∨ base.text.toList.getLast? = some '/') :
    (steps.foldl (fun path step => path.join ⟨step⟩) base).text.toList =
      base.text.toList ++ ['/'].intercalate (steps.map String.toList) := by
  cases steps with
  | nil => simp [List.intercalate]
  | cons step steps =>
    obtain ⟨own, later⟩ := List.forall_mem_cons.mp bare
    have joined := text_join_of_closed own.2 closed
    have filled : (base.join ⟨step⟩).text.toList ≠ [] := by simp [joined, own.1]
    have still : (base.join ⟨step⟩).text.toList.getLast? ≠ some '/' := by
      rw [joined]
      exact getLast?_of_isBare own _
    rw [List.foldl_cons, text_foldl_join_of_open later filled still, joined, List.map_cons,
      intercalate_cons]
    simp

/-- What is put together from names is spelled as the names with a slash between them. -/
theorem text_ofComponents (bare : ∀ step ∈ steps, IsBare step.toList) :
    (ofComponents (steps.map .name)).text.toList = ['/'].intercalate (steps.map String.toList) := by
  rw [ofComponents, List.foldl_map]
  exact text_foldl_join bare (.inl rfl)

end PackageSheet.Path
