import Mathlib.Data.List.DropRight
import PackageSheet.Proofs.Path.Components

namespace PackageSheet.Path

variable {path base rest : Path} {segs : List (List Char)} {segment : List Char} {n : Nat}

/-! ### Idle segments -/

theorem mem_of_mem_dropIdleEnd (member : segment ∈ dropIdleEnd segs) : segment ∈ segs :=
  (List.rdropWhile_prefix (!isStep ·) segs).subset member

theorem steps_of_idle (idle : ∀ s ∈ segs, isStep s = false) : steps segs = [] := by
  rw [steps, List.filter_eq_nil_iff.mpr (by simpa using idle), List.map_nil]

/-- A list is what is left of it when idle segments are dropped from its end, and the dropped. -/
theorem exists_idle_end (segs : List (List Char)) :
    ∃ tail, segs = dropIdleEnd segs ++ tail ∧ ∀ s ∈ tail, isStep s = false := by
  refine ⟨segs.rtakeWhile (!isStep ·), List.rdropWhile_append_rtakeWhile.symm, ?_⟩
  intro s member
  simpa using List.mem_rtakeWhile_imp member

@[simp] theorem steps_dropIdleEnd (segs : List (List Char)) :
    steps (dropIdleEnd segs) = steps segs := by
  obtain ⟨tail, whole, idle⟩ := exists_idle_end segs
  conv_rhs => rw [whole, steps_append, steps_of_idle idle, List.append_nil]

theorem head?_dropIdleEnd (found : (dropIdleEnd segs).head? = some segment) :
    segs.head? = some segment := by
  obtain ⟨tail, whole, -⟩ := exists_idle_end segs
  rw [whole, List.head?_append, found]
  rfl

private theorem mem_of_mem_dropSteps (member : segment ∈ dropSteps n segs) : segment ∈ segs := by
  fun_induction dropSteps n segs with
  | case1 segs => exact (List.dropWhile_sublist _).subset member
  | case2 => exact member
  | case3 n s segs ih => exact List.mem_cons_of_mem _ (ih member)

@[simp] theorem steps_dropSteps (n : Nat) (segs : List (List Char)) :
    steps (dropSteps n segs) = (steps segs).drop n := by
  fun_induction dropSteps n segs with
  | case1 segs =>
    induction segs with
    | nil => rfl
    | cons s segs ih =>
      by_cases counts : isStep s = true
      · simp [counts]
      · have idle : isStep s = false := by simpa using counts
        rw [List.dropWhile_cons_of_pos (by simp [idle]), ih, steps_cons_of_idle idle]
  | case2 n => rfl
  | case3 n s segs ih =>
    rw [ih]
    by_cases counts : isStep s = true
    · rw [if_pos counts, steps_cons_of_isStep counts, List.drop_succ_cons]
    · have idle : isStep s = false := by simpa using counts
      rw [if_neg counts, steps_cons_of_idle idle]

private theorem isStep_head?_dropSteps (n : Nat) (segs : List (List Char)) :
    ∀ s ∈ (dropSteps n segs).head?, isStep s = true := by
  fun_induction dropSteps n segs with
  | case1 segs =>
    intro s first
    have := List.head?_dropWhile_not (!isStep ·) segs
    rw [first] at this
    simpa using this
  | case2 n => simp
  | case3 n s segs ih => exact ih

/-! ### Texts of divisions -/

/-- A division that is written out and read again has the same components. -/
theorem components_ofDivision {anchor : Option Component}
    (known : anchor = none ∨ anchor = some .root ∨ anchor = some .current)
    (bare : ∀ s ∈ segs, '/' ∉ s)
    (start : anchor = none → ∀ s ∈ segs.head?, isStep s = true) :
    (ofDivision anchor segs).components = anchor.toList ++ steps segs := by
  have empty : steps (segments []) = [] := by decide
  have tail : steps (segments (['/'].intercalate segs)) = steps segs := by
    cases segs with
    | nil => exact empty
    | cons first others => rw [segments_intercalate bare (List.cons_ne_nil first others)]
  rcases known with rfl | rfl | rfl
  · have free : (Path.mk (String.ofList (['/'].intercalate segs))).anchor = none := by
      cases segs with
      | nil => decide
      | cons first others =>
        have counts : first ≠ [] ∧ first ≠ ['.'] := by simpa [isStep] using start rfl first rfl
        have divided := segments_intercalate bare (List.cons_ne_nil first others)
        rcases divide_cases (Path.mk (String.ofList (['/'].intercalate (first :: others)))) with
          ⟨whole, -⟩ | ⟨_, -, -, text⟩ | ⟨_, -, text⟩
        · rw [anchor, whole]
        · rw [String.toList_ofList, divided] at text
          exact absurd (List.cons.inj text).1 counts.1
        · rw [String.toList_ofList, divided] at text
          exact absurd (List.cons.inj text).1 counts.2
    rw [ofDivision, components_eq, free, String.toList_ofList, tail]
  · have slash := components_slash [] (['/'].intercalate segs)
    rw [tail] at slash
    exact slash
  · cases segs with
    | nil => decide
    | cons first others =>
      have slash := components_slash ['.'] (['/'].intercalate (first :: others))
      have text : ofDivision (some .current) (first :: others) =
          ⟨String.ofList (['.'] ++ '/' :: ['/'].intercalate (first :: others))⟩ := by
        rw [Path.mk.injEq, ← String.toList_inj, String.toList_ofList]
        simp [ofDivision, Component.text]
      rw [text, slash, tail, if_neg (by simp)]
      exact congrArg (· ++ steps (first :: others)) components_dot

theorem anchor_cases (path : Path) :
    path.anchor = none ∨ path.anchor = some .root ∨ path.anchor = some .current := by
  rcases divide_cases path with ⟨whole, -⟩ | ⟨_, -, whole, -⟩ | ⟨_, whole, -⟩ <;>
    simp [anchor, whole]

theorem components_eq_divide (path : Path) :
    path.components = path.anchor.toList ++ steps path.divide.2 := by
  rw [components_eq, steps_divide]

/-- Where nothing anchors a path, what its text begins with is a step, if anything is. -/
theorem isStep_head?_divide (free : path.anchor = none) (front : segs <+: path.divide.2) :
    ∀ s ∈ (dropIdleEnd segs).head?, isStep s = true := by
  intro s first
  have own : path.divide.2.head? = some s := by
    obtain ⟨more, whole⟩ := front
    rw [← whole, List.head?_append, head?_dropIdleEnd first]
    rfl
  rcases divide_cases path with ⟨whole, plain⟩ | ⟨_, -, whole, -⟩ | ⟨_, whole, -⟩
  · rw [whole] at own front
    cases divided : segments path.text.toList with
    | nil => exact absurd divided (segments_ne_nil _)
    | cons one others =>
      rw [divided] at own front
      cases own
      cases others with
      | nil =>
        by_cases counts : isStep s = true
        · exact counts
        · have idle : ∀ other ∈ segs, isStep other = false := by
            intro other member
            rw [List.mem_singleton.mp (front.subset member)]
            simpa using counts
          have nothing : dropIdleEnd segs = [] :=
            List.rdropWhile_eq_nil_iff.mpr fun other member => by simp [idle other member]
          rw [nothing] at first
          cases first
      | cons two others =>
        have counts := plain s two others divided
        simp [isStep, counts]
  · simp [anchor, whole] at free
  · simp [anchor, whole] at free

/-! ### Parents -/

theorem steps_of_beforeLastStep? {before : List (List Char)}
    (found : beforeLastStep? segs = some before) :
    steps before = (steps segs).dropLast ∧ steps segs ≠ [] ∧ before <+: segs := by
  obtain ⟨tail, whole, idle⟩ := exists_idle_end segs
  have ends : (dropIdleEnd segs).reverse = segs.reverse.dropWhile (!isStep ·) := by
    rw [dropIdleEnd, List.reverse_reverse]
  unfold beforeLastStep? at found
  split at found
  · cases found
  · rename_i last front same
    cases found
    have kept : dropIdleEnd segs = front.reverse ++ [last] := by
      rw [← List.reverse_inj, ends, same]
      simp
    have counts : isStep last = true := by
      have := List.head?_dropWhile_not (!isStep ·) segs.reverse
      rw [same] at this
      simpa using this
    have own : steps segs = steps front.reverse ++ [step last] := by
      rw [← steps_dropIdleEnd, kept, steps_append, steps_cons_of_isStep counts, steps_nil]
    refine ⟨by rw [own, List.dropLast_concat], by simp [own], last :: tail, ?_⟩
    rw [whole, kept, List.append_assoc, List.singleton_append]

theorem steps_of_beforeLastStep?_eq_none (found : beforeLastStep? segs = none) :
    steps segs = [] := by
  unfold beforeLastStep? at found
  split at found
  · rename_i nothing
    have idle := List.dropWhile_eq_nil_iff.mp nothing
    exact steps_of_idle fun s member => by simpa using idle s (List.mem_reverse.mpr member)
  · cases found

/-- What the parent of a path is made of: what comes before its last step, if it has one. -/
theorem parent?_cases (path : Path) :
    (∃ before, beforeLastStep? path.divide.2 = some before ∧
      path.parent? = some (ofDivision path.anchor (dropIdleEnd before))) ∨
    beforeLastStep? path.divide.2 = none ∧
      path.parent? = if path.anchor = some .current then some ⟨""⟩ else none := by
  unfold parent? anchor
  cases path.divide with
  | mk anchor rest =>
    dsimp only
    cases beforeLastStep? rest with
    | some before => exact .inl ⟨before, rfl, rfl⟩
    | none => exact .inr ⟨rfl, rfl⟩

/-- The parent of a path has its components without the last. -/
theorem components_parent? {directory : Path} (found : path.parent? = some directory) :
    directory.components = path.components.dropLast := by
  rcases path.parent?_cases with ⟨before, last, own⟩ | ⟨nothing, own⟩
  · obtain ⟨front, some, inside⟩ := steps_of_beforeLastStep? last
    rw [own] at found
    cases found
    have bare (s : List Char) (member : s ∈ dropIdleEnd before) : '/' ∉ s :=
      bare_of_mem_divide (inside.subset (mem_of_mem_dropIdleEnd member))
    rw [components_ofDivision path.anchor_cases bare (isStep_head?_divide · inside), steps_dropIdleEnd, front,
      components_eq_divide, List.dropLast_append_of_ne_nil some]
  · rw [own] at found
    split at found
    · rename_i dot
      cases found
      rw [components_eq_divide path, dot, steps_of_beforeLastStep?_eq_none nothing]
      decide
    · cases found

theorem components_of_parent?_eq_none (found : path.parent? = none) :
    path.components = [] ∨ path.components = [.root] := by
  rcases path.parent?_cases with ⟨before, last, own⟩ | ⟨nothing, own⟩
  · rw [own] at found
    cases found
  · rw [own] at found
    rw [components_eq_divide, steps_of_beforeLastStep?_eq_none nothing]
    rcases path.anchor_cases with free | root | current
    · simp [free]
    · simp [root]
    · simp [current] at found

/-! ### What is left below a path -/

/-- What is left of a path below another one has the components that follow those of the other. -/
theorem components_below? (found : path.below? base = some rest) :
    base.components <+: path.components ∧
      rest.components = path.components.drop base.components.length := by
  unfold below? at found
  have divided : path.divide = (path.anchor, path.divide.2) := rfl
  rw [divided] at found
  dsimp only at found
  split at found
  · rename_i nothing
    rw [← Option.some.inj found]
    have bare (s : List Char) (member : s ∈ dropIdleEnd path.divide.2) : '/' ∉ s :=
      bare_of_mem_divide (mem_of_mem_dropIdleEnd member)
    rw [nothing, components_ofDivision path.anchor_cases bare
      (isStep_head?_divide · (List.prefix_refl _)), steps_dropIdleEnd, ← components_eq_divide]
    exact ⟨List.nil_prefix, rfl⟩
  · rename_i some
    split at found
    · rename_i below
      rw [← Option.some.inj found]
      have bare (s : List Char) (member : s ∈ dropIdleEnd (dropSteps
          (base.components.length - path.anchor.toList.length) path.divide.2)) : '/' ∉ s :=
        bare_of_mem_divide (mem_of_mem_dropSteps (mem_of_mem_dropIdleEnd member))
      have long : path.anchor.toList.length ≤ base.components.length := by
        have one : path.anchor.toList.length ≤ 1 := by cases path.anchor <;> simp
        exact one.trans (List.length_pos_of_ne_nil (some ·))
      refine ⟨List.isPrefixOf_iff_prefix.mp below, ?_⟩
      rw [components_ofDivision (.inl rfl) bare fun _ s first => isStep_head?_dropSteps _ _ s
        (head?_dropIdleEnd first), steps_dropIdleEnd, steps_dropSteps, components_eq_divide path,
        List.drop_append, List.drop_of_length_le long]
      simp
    · cases found

theorem below?_eq_none (found : path.below? base = none) :
    ¬ base.components <+: path.components := by
  unfold below? at found
  dsimp only at found
  split at found
  · cases found
  · split at found
    · cases found
    · rename_i apart
      exact fun below => apart (List.isPrefixOf_iff_prefix.mpr below)

/-! ### The last component -/

theorem fileName?_eq_some {name : String} :
    path.fileName? = some name ↔ path.components.getLast? = some (.name name) := by
  unfold fileName?
  split
  · rename_i found
    simp [found]
  · rename_i other
    constructor
    · intro found
      cases found
    · intro found
      exact absurd found (other name)

end PackageSheet.Path
