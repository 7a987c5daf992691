import PackageSheet.Path

namespace PackageSheet.Path

/-- A text that is a name between slashes. -/
structure IsName (text : List Char) : Prop where
  ne_nil : text ≠ []
  bare : '/' ∉ text
  not_current : text ≠ ['.']
  not_parent : text ≠ ['.', '.']

instance (text : List Char) : Decidable (IsName text) :=
  decidable_of_iff (text ≠ [] ∧ '/' ∉ text ∧ text ≠ ['.'] ∧ text ≠ ['.', '.'])
    ⟨fun ⟨a, b, c, d⟩ => ⟨a, b, c, d⟩, fun ⟨a, b, c, d⟩ => ⟨a, b, c, d⟩⟩

/-- A path is named if all its components are names. Such a path is relative. -/
def IsNamed (path : Path) : Prop :=
  ∀ c ∈ path.components, c.isName = true

variable {path base other : Path} {a b text : List Char} {segment : List Char}
  {segs names : List (List Char)}

/-! ### Segments -/

theorem segments_slash (a b : List Char) : segments (a ++ '/' :: b) = segments a ++ segments b :=
  List.splitOn_append_cons_self a b

theorem segments_of_bare (bare : '/' ∉ text) : segments text = [text] :=
  List.splitOn_eq_singleton bare

theorem segments_ne_nil (text : List Char) : segments text ≠ [] :=
  List.splitOn_ne_nil '/' text

theorem intercalate_segments (text : List Char) : ['/'].intercalate (segments text) = text :=
  List.intercalate_splitOn '/'

theorem segments_intercalate (bare : ∀ s ∈ segs, '/' ∉ s) (some : segs ≠ []) :
    segments (['/'].intercalate segs) = segs :=
  List.splitOn_intercalate '/' bare some

theorem not_mem_of_mem_segments (member : segment ∈ segments text) : '/' ∉ segment := by
  induction text generalizing segment with
  | nil =>
    rw [segments_of_bare List.not_mem_nil] at member
    rw [List.mem_singleton.mp member]
    exact List.not_mem_nil
  | cons c text ih =>
    rw [segments, List.splitOn_cons_eq_if_modifyHead] at member
    split at member
    · rcases List.mem_cons.mp member with rfl | member
      · simp
      · exact ih member
    · rename_i other
      cases divided : List.splitOn '/' text with
      | nil => exact absurd divided (segments_ne_nil text)
      | cons first rest =>
        rw [divided] at member
        rcases List.mem_cons.mp member with rfl | member
        · have bare : '/' ∉ first := ih (by rw [segments, divided]; exact List.mem_cons_self)
          have differs : '/' ≠ c := fun same => other (beq_iff_eq.mpr same.symm)
          simp [differs, bare]
        · exact ih (by rw [segments, divided]; exact List.mem_cons_of_mem _ member)

private theorem isInfix_intercalate (member : segment ∈ segs) : segment <:+: ['/'].intercalate segs := by
  induction segs with
  | nil => cases member
  | cons first rest ih =>
    cases rest with
    | nil =>
      obtain rfl := List.mem_singleton.mp member
      have whole : ['/'].intercalate [segment] = segment := List.intercalate_singleton
      exact whole.symm ▸ List.infix_rfl
    | cons second rest =>
      rw [List.intercalate_cons_cons]
      rcases List.mem_cons.mp member with rfl | later
      · exact List.infix_append_of_infix_left (List.prefix_append _ _).isInfix
      · exact List.infix_append_of_infix_right (ih later)

theorem isInfix_of_mem_segments (member : segment ∈ segments text) : segment <:+: text := by
  have inside := isInfix_intercalate member
  rwa [intercalate_segments] at inside

/-! ### Steps -/

@[simp] theorem steps_nil : steps [] = [] := rfl

@[simp] theorem steps_append (first second : List (List Char)) :
    steps (first ++ second) = steps first ++ steps second := by
  simp [steps]

theorem IsName.isStep (name : IsName text) : isStep text = true := by
  simp [Path.isStep, name.ne_nil, name.not_current]

theorem IsName.step (name : IsName text) : step text = .name (String.ofList text) := by
  simp [Path.step, name.not_parent]

theorem text_step (segment : List Char) : (step segment).text.toList = segment := by
  unfold step
  split
  · rename_i dots
    exact dots.symm
  · exact String.toList_ofList

theorem steps_cons_of_isStep (counts : isStep segment = true) :
    steps (segment :: segs) = step segment :: steps segs := by
  simp [steps, counts]

theorem steps_cons_of_idle (idle : isStep segment = false) : steps (segment :: segs) = steps segs := by
  simp [steps, idle]

theorem steps_of_names (names : ∀ s ∈ segs, IsName s) :
    steps segs = segs.map fun s => .name (String.ofList s) := by
  induction segs with
  | nil => rfl
  | cons s segs ih =>
    obtain ⟨name, names⟩ := List.forall_mem_cons.mp names
    rw [steps_cons_of_isStep name.isStep, name.step, ih names, List.map_cons]

theorem step_ne_anchor (segment : List Char) :
    step segment ≠ .root ∧ step segment ≠ .current := by
  unfold step
  split <;> simp

private theorem isName_of_mem_steps {name : String} (bare : ∀ s ∈ segs, '/' ∉ s)
    (member : .name name ∈ steps segs) : IsName name.toList := by
  obtain ⟨segment, kept, same⟩ := List.mem_map.mp member
  obtain ⟨known, counts⟩ := List.mem_filter.mp kept
  have single : segment ≠ [] ∧ segment ≠ ['.'] := by simpa [isStep] using counts
  unfold step at same
  split at same
  · cases same
  · rename_i double
    cases same
    rw [String.toList_ofList]
    exact ⟨single.1, bare _ known, single.2, double⟩

/-! ### Components -/

/-- What anchors a path: the slash at its start, a leading dot, or nothing. -/
def anchor (path : Path) : Option Component :=
  path.divide.1

theorem divide_cases (path : Path) :
    (path.divide = (none, segments path.text.toList) ∧
      ∀ first second rest, segments path.text.toList = first :: second :: rest →
        first ≠ [] ∧ first ≠ ['.']) ∨
    (∃ rest, rest ≠ [] ∧ path.divide = (some .root, rest) ∧
      segments path.text.toList = [] :: rest) ∨
    ∃ rest, path.divide = (some .current, rest) ∧
      segments path.text.toList = ['.'] :: rest := by
  unfold divide
  cases found : segments path.text.toList with
  | nil => exact absurd found (segments_ne_nil _)
  | cons first rest =>
    cases rest with
    | nil =>
      by_cases dot : first = ['.']
      · simp [dot]
      · simp [dot]
    | cons second rest =>
      by_cases empty : first = []
      · simp [empty]
      · by_cases dot : first = ['.']
        · simp [dot]
        · simp [empty, dot]

theorem steps_divide (path : Path) :
    steps path.divide.2 = steps (segments path.text.toList) := by
  rcases divide_cases path with ⟨whole, -⟩ | ⟨rest, -, whole, text⟩ | ⟨rest, whole, text⟩
  · rw [whole]
  · rw [whole, text, steps_cons_of_idle rfl]
  · rw [whole, text, steps_cons_of_idle rfl]

/-- The components of a path are its anchor and the steps of its text. -/
theorem components_eq (path : Path) :
    path.components = path.anchor.toList ++ steps (segments path.text.toList) :=
  congrArg (path.anchor.toList ++ ·) path.steps_divide

theorem components_empty : (Path.mk "").components = [] := by decide

theorem components_dot : (Path.mk ".").components = [.current] := by decide

theorem same_dot : path.same ⟨"."⟩ = true ↔ path.components = [.current] := by
  rw [same, components_dot, beq_iff_eq]

theorem bare_of_mem_divide (member : segment ∈ path.divide.2) : '/' ∉ segment := by
  have own : segment ∈ segments path.text.toList → '/' ∉ segment := not_mem_of_mem_segments
  apply own
  rcases divide_cases path with ⟨whole, -⟩ | ⟨rest, -, whole, text⟩ | ⟨rest, whole, text⟩
  · rwa [whole] at member
  · rw [whole] at member
    exact text ▸ List.mem_cons_of_mem _ member
  · rw [whole] at member
    exact text ▸ List.mem_cons_of_mem _ member

theorem isName_of_mem_components {name : String} (member : .name name ∈ path.components) :
    IsName name.toList := by
  rw [components_eq] at member
  rcases List.mem_append.mp member with anchored | stepped
  · rcases divide_cases path with ⟨whole, -⟩ | ⟨rest, -, whole, -⟩ | ⟨rest, whole, -⟩ <;>
      simp [anchor, whole] at anchored
  · exact isName_of_mem_steps (fun _ => not_mem_of_mem_segments) stepped

theorem isAbsolute_iff : path.isAbsolute = true ↔ path.anchor = some .root := by
  have absolute : path.isAbsolute = true ↔ ∃ rest, path.text.toList = '/' :: rest := by
    unfold isAbsolute
    split
    · rename_i rest found
      simp [found]
    · rename_i other
      simp only [Bool.false_eq_true, false_iff]
      rintro ⟨rest, found⟩
      exact other rest found
  rw [absolute, anchor]
  constructor
  · rintro ⟨rest, found⟩
    have divided : segments path.text.toList = [] :: segments rest := by
      rw [found]
      exact segments_slash [] rest
    rcases divide_cases path with ⟨-, plain⟩ | ⟨_, -, whole, -⟩ | ⟨_, -, text⟩
    · obtain ⟨second, others, more⟩ := List.exists_cons_of_ne_nil (segments_ne_nil rest)
      exact absurd rfl (plain [] second others (by rw [divided, more])).1
    · rw [whole]
    · simp [divided] at text
  · intro anchored
    rcases divide_cases path with ⟨whole, -⟩ | ⟨rest, some, -, text⟩ | ⟨_, whole, -⟩
    · simp [whole] at anchored
    · refine ⟨['/'].intercalate rest, ?_⟩
      rw [← intercalate_segments path.text.toList, text]
      cases rest with
      | nil => exact absurd rfl some
      | cons second rest => rfl
    · simp [whole] at anchored

/-- A slash between two texts puts the components of the second after those of the first. -/
theorem components_slash (a b : List Char) :
    (Path.mk (String.ofList (a ++ '/' :: b))).components =
      (if a = [] then [.root] else (Path.mk (String.ofList a)).components) ++
        steps (segments b) := by
  have both : segments (Path.mk (String.ofList (a ++ '/' :: b))).text.toList =
      segments a ++ segments b := by
    rw [String.toList_ofList, segments_slash]
  have front : segments (Path.mk (String.ofList a)).text.toList = segments a := by
    rw [String.toList_ofList]
  have anchors : (Path.mk (String.ofList (a ++ '/' :: b))).anchor =
      if a = [] then some .root else (Path.mk (String.ofList a)).anchor := by
    unfold anchor divide
    rw [both, front]
    obtain ⟨head, tail, more⟩ := List.exists_cons_of_ne_nil (segments_ne_nil b)
    cases first : segments a with
    | nil => exact absurd first (segments_ne_nil a)
    | cons one others =>
      have whole := intercalate_segments a
      rw [first] at whole
      cases others with
      | nil =>
        have same : a = one := by simpa using whole.symm
        subst same
        rw [more]
        by_cases empty : a = []
        · simp [empty]
        · by_cases dot : a = ['.'] <;> simp [empty, dot]
      | cons two others =>
        have some : a ≠ [] := by
          rintro rfl
          simp [List.intercalate] at whole
        by_cases empty : one = []
        · simp [some, empty]
        · by_cases dot : one = ['.'] <;> simp [some, empty, dot]
  rw [components_eq, anchors, both, steps_append]
  by_cases empty : a = []
  · subst empty
    have none : steps (segments []) = [] := by decide
    simp [none]
  · rw [if_neg empty, if_neg empty, components_eq, front, List.append_assoc]

/-- A relative path is put behind another one, after a slash if there is none. -/
theorem join_cases (base : Path) (relative : other.isAbsolute = false) :
    (base.text.toList = [] ∧ base.join other = other) ∨
    (∃ cs, base.text.toList = cs ++ ['/'] ∧
      base.join other = ⟨String.ofList (cs ++ '/' :: other.text.toList)⟩) ∨
    (base.text.toList ≠ [] ∧ base.text.toList.getLast? ≠ some '/' ∧
      base.join other = ⟨String.ofList (base.text.toList ++ '/' :: other.text.toList)⟩) := by
  unfold join
  rw [if_neg (by simp [relative])]
  split
  · rename_i empty
    exact .inl ⟨List.getLast?_eq_none_iff.mp empty, rfl⟩
  · rename_i slash
    obtain ⟨cs, whole⟩ := List.getLast?_eq_some_iff.mp slash
    refine .inr (.inl ⟨cs, whole, ?_⟩)
    rw [Path.mk.injEq, ← String.toList_inj, String.toList_append, String.toList_ofList, whole]
    simp
  · rename_i c plain last
    refine .inr (.inr ⟨?_, ?_, ?_⟩)
    · intro empty
      simp [empty] at last
    · rw [last]
      exact fun same => plain (Option.some.inj same)
    · rw [Path.mk.injEq, ← String.toList_inj, String.toList_ofList]
      simp

/-- Joining paths joins their components, unless the second has an anchor. -/
theorem components_join (free : other.anchor = none) :
    (base.join other).components = base.components ++ other.components := by
  have relative : other.isAbsolute = false := by
    rw [← Bool.not_eq_true, isAbsolute_iff, free]
    simp
  have own : other.components = steps (segments other.text.toList) := by
    rw [components_eq, free]
    rfl
  have front : base = Path.mk (String.ofList base.text.toList) := by rw [String.ofList_toList]
  have idle : steps (segments []) = [] := by decide
  rcases join_cases base relative with ⟨empty, joined⟩ | ⟨cs, whole, joined⟩ |
    ⟨filled, -, joined⟩
  · have nothing : base.components = [] := by
      rw [front, empty]
      decide
    rw [joined, nothing]
    rfl
  · have above : base.components =
        if cs = [] then [.root] else (Path.mk (String.ofList cs)).components := by
      rw [front, whole, components_slash, idle, List.append_nil]
    rw [joined, components_slash, above, own]
  · rw [joined, components_slash, if_neg filled, ← front, own]

/-! ### Named paths -/

theorem IsNamed.anchor (named : path.IsNamed) : path.anchor = none := by
  unfold IsNamed at named
  rw [components_eq] at named
  rcases divide_cases path with ⟨whole, -⟩ | ⟨_, -, whole, -⟩ | ⟨_, whole, -⟩
  · simp [Path.anchor, whole]
  · simp [Path.anchor, whole, Component.isName] at named
  · simp [Path.anchor, whole, Component.isName] at named

theorem IsNamed.isAbsolute (named : path.IsNamed) : path.isAbsolute = false := by
  rw [← Bool.not_eq_true, isAbsolute_iff, named.anchor]
  simp

private theorem components_intercalate (names : ∀ s ∈ segs, IsName s) :
    (Path.mk (String.ofList (['/'].intercalate segs))).components =
      segs.map fun s => .name (String.ofList s) := by
  cases segs with
  | nil => decide
  | cons first rest =>
    have bare : ∀ s ∈ first :: rest, '/' ∉ s := fun s member => (names s member).bare
    have divided := segments_intercalate bare (List.cons_ne_nil first rest)
    have free : (Path.mk (String.ofList (['/'].intercalate (first :: rest)))).anchor = none := by
      have own := names first List.mem_cons_self
      rcases divide_cases (Path.mk (String.ofList (['/'].intercalate (first :: rest)))) with
        ⟨whole, -⟩ | ⟨_, -, -, text⟩ | ⟨_, -, text⟩
      · rw [Path.anchor, whole]
      · rw [String.toList_ofList, divided] at text
        exact absurd (List.cons.inj text).1 own.ne_nil
      · rw [String.toList_ofList, divided] at text
        exact absurd (List.cons.inj text).1 own.not_current
    rw [components_eq, free, String.toList_ofList, divided, steps_of_names names]
    rfl

theorem components_name {name : String} (own : IsName name.toList) :
    (Path.mk name).components = [.name name] := by
  have single : (Path.mk (String.ofList (['/'].intercalate [name.toList]))).components =
      [name.toList].map fun s => .name (String.ofList s) :=
    components_intercalate (List.forall_mem_singleton.mpr own)
  simpa [List.intercalate] using single

private theorem isNamed_name {name : String} (own : IsName name.toList) : (Path.mk name).IsNamed := by
  intro c member
  rw [components_name own] at member
  rw [List.mem_singleton.mp member]
  rfl

private theorem components_join_name {name : String} (own : IsName name.toList) :
    (base.join ⟨name⟩).components = base.components ++ [.name name] := by
  rw [components_join (isNamed_name own).anchor, components_name own]

/-- What is put together from names has these names for components. -/
theorem components_ofComponents {cs : List Component}
    (names : ∀ c ∈ cs, ∃ name : String, c = .name name ∧ IsName name.toList) :
    (ofComponents cs).components = cs := by
  have joined (base : Path) :
      (cs.foldl (fun path c => path.join ⟨c.text⟩) base).components = base.components ++ cs := by
    induction cs generalizing base with
    | nil => simp
    | cons c cs ih =>
      obtain ⟨⟨name, rfl, own⟩, others⟩ := List.forall_mem_cons.mp names
      rw [List.foldl_cons, ih others]
      have step : (base.join ⟨Component.text (.name name)⟩).components =
          base.components ++ [.name name] := components_join_name own
      rw [step, List.append_assoc, List.singleton_append]
  rw [ofComponents, joined, components_empty, List.nil_append]

/-- The names among the components of a path are what it is put together from again. -/
theorem components_ofComponents_names (path : Path) :
    (ofComponents (path.components.filter (·.isName))).components =
      path.components.filter (·.isName) := by
  apply components_ofComponents
  intro c member
  obtain ⟨known, named⟩ := List.mem_filter.mp member
  cases c with
  | name name => exact ⟨name, rfl, isName_of_mem_components known⟩
  | root | current | parent => cases named

end PackageSheet.Path
