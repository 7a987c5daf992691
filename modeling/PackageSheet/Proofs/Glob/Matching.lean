import PackageSheet.Glob.Match

namespace PackageSheet.Glob

variable {piece : Piece} {ps qs : List Piece} {cs front rest : List Char} {c : Char}

private theorem mem_afterRun : rest ∈ afterRun cs ↔ ∃ front, cs = front ++ rest ∧ '/' ∉ front := by
  induction cs with
  | nil =>
    rw [afterRun, List.mem_singleton]
    constructor
    · rintro rfl
      exact ⟨[], rfl, List.not_mem_nil⟩
    · rintro ⟨front, whole, -⟩
      exact (List.append_eq_nil_iff.mp whole.symm).2
  | cons c cs ih =>
    rw [afterRun, List.mem_cons]
    constructor
    · rintro (rfl | inside)
      · exact ⟨[], rfl, List.not_mem_nil⟩
      · split at inside
        · cases inside
        · rename_i other
          obtain ⟨front, rfl, bare⟩ := ih.mp inside
          exact ⟨c :: front, rfl, List.not_mem_cons_of_ne_of_not_mem (Ne.symm other) bare⟩
    · rintro ⟨front, whole, bare⟩
      cases front with
      | nil => exact .inl whole.symm
      | cons first front =>
        obtain ⟨rfl, rfl⟩ := List.cons.inj whole
        rw [if_neg (List.ne_of_not_mem_cons bare).symm]
        exact .inr (ih.mpr ⟨front, rfl, List.not_mem_of_not_mem_cons bare⟩)

private theorem mem_afterSlash : rest ∈ afterSlash cs ↔ ∃ front, cs = front ++ '/' :: rest := by
  induction cs with
  | nil => simp [afterSlash]
  | cons c cs ih =>
    have later : rest ∈ afterSlash cs → ∃ front, c :: cs = front ++ '/' :: rest := by
      intro inside
      obtain ⟨front, rfl⟩ := ih.mp inside
      exact ⟨c :: front, rfl⟩
    rw [afterSlash]
    constructor
    · intro inside
      split at inside
      · rename_i slash
        rcases List.mem_cons.mp inside with rfl | inside
        · exact ⟨[], by rw [slash]; rfl⟩
        · exact later inside
      · exact later inside
    · rintro ⟨front, whole⟩
      cases front with
      | nil =>
        obtain ⟨rfl, rfl⟩ := List.cons.inj whole
        simp
      | cons first front =>
        obtain ⟨rfl, rfl⟩ := List.cons.inj whole
        have inside : rest ∈ afterSlash (front ++ '/' :: rest) := ih.mpr ⟨front, rfl⟩
        split
        · exact List.mem_cons_of_mem _ inside
        · exact inside

@[simp] theorem isMatch_nil : isMatch [] cs = true ↔ cs = [] := by
  simp [isMatch]

theorem isMatch_anyRun :
    isMatch (.anyRun :: ps) cs = true ↔
      ∃ front rest, cs = front ++ rest ∧ '/' ∉ front ∧ isMatch ps rest = true := by
  rw [isMatch, List.any_eq_true]
  constructor
  · rintro ⟨rest, inside, found⟩
    obtain ⟨front, whole, bare⟩ := mem_afterRun.mp inside
    exact ⟨front, rest, whole, bare, found⟩
  · rintro ⟨front, rest, whole, bare, found⟩
    exact ⟨rest, mem_afterRun.mpr ⟨front, whole, bare⟩, found⟩

theorem isMatch_anyPath :
    isMatch (.anyPath :: ps) cs = true ↔
      ps = [] ∨ isMatch ps cs = true ∨
        ∃ front rest, cs = front ++ '/' :: rest ∧ isMatch ps rest = true := by
  rw [isMatch, Bool.or_eq_true, Bool.or_eq_true, List.isEmpty_iff, List.any_eq_true, or_assoc]
  refine or_congr_right (or_congr_right ?_)
  constructor
  · rintro ⟨rest, inside, found⟩
    obtain ⟨front, whole⟩ := mem_afterSlash.mp inside
    exact ⟨front, rest, whole, found⟩
  · rintro ⟨front, rest, whole, found⟩
    exact ⟨rest, mem_afterSlash.mpr ⟨front, whole⟩, found⟩

/-- A piece stands for one character if it is none for a run. -/
def Piece.IsSingle : Piece → Prop
  | .anyRun | .anyPath => False
  | _ => True

theorem Piece.kind (piece : Piece) : piece.IsSingle ∨ piece = .anyRun ∨ piece = .anyPath := by
  cases piece <;> simp [IsSingle]

theorem isMatch_single (single : piece.IsSingle) :
    isMatch (piece :: ps) cs = true ↔
      ∃ c rest, cs = c :: rest ∧ piece.accepts c = true ∧ isMatch ps rest = true := by
  have step (c : Char) (rest : List Char) :
      isMatch (piece :: ps) (c :: rest) = (piece.accepts c && isMatch ps rest) := by
    cases piece with
    | anyRun | anyPath => cases single
    | literal | anyChar | within | outside => rfl
  cases cs with
  | nil =>
    have empty : isMatch (piece :: ps) [] = false := by
      cases piece with
      | anyRun | anyPath => cases single
      | literal | anyChar | within | outside => rfl
    simp [empty]
  | cons c rest =>
    rw [step, Bool.and_eq_true]
    constructor
    · rintro ⟨accepted, found⟩
      exact ⟨c, rest, rfl, accepted, found⟩
    · rintro ⟨_, _, whole, accepted, found⟩
      obtain ⟨rfl, rfl⟩ := List.cons.inj whole
      exact ⟨accepted, found⟩

theorem isMatch_literal :
    isMatch (.literal c :: ps) cs = true ↔ ∃ rest, cs = c :: rest ∧ isMatch ps rest = true := by
  have single : (Piece.literal c).IsSingle := trivial
  rw [isMatch_single single]
  constructor
  · rintro ⟨d, rest, rfl, same, found⟩
    have equal : c = d := by simpa [Piece.accepts] using same
    exact ⟨rest, by rw [equal], found⟩
  · rintro ⟨rest, rfl, found⟩
    exact ⟨c, rest, rfl, by simp [Piece.accepts], found⟩

/-- A pattern without runs of directories in front of another one. -/
theorem isMatch_append (plain : Piece.anyPath ∉ ps) :
    isMatch (ps ++ qs) cs = true ↔
      ∃ front rest, cs = front ++ rest ∧ isMatch ps front = true ∧ isMatch qs rest = true := by
  induction ps generalizing cs with
  | nil =>
    constructor
    · intro found
      exact ⟨[], cs, rfl, isMatch_nil.mpr rfl, found⟩
    · rintro ⟨front, rest, rfl, none, found⟩
      rwa [isMatch_nil.mp none]
  | cons piece ps ih =>
    have plain' := List.not_mem_of_not_mem_cons plain
    rw [List.cons_append]
    rcases piece.kind with single | rfl | rfl
    · simp only [isMatch_single single]
      constructor
      · rintro ⟨c, more, rfl, accepted, found⟩
        obtain ⟨front, rest, rfl, first, second⟩ := (ih plain').mp found
        exact ⟨c :: front, rest, rfl, ⟨c, front, rfl, accepted, first⟩, second⟩
      · rintro ⟨_, rest, rfl, ⟨c, front, rfl, accepted, first⟩, second⟩
        exact ⟨c, front ++ rest, rfl, accepted,
          (ih plain').mpr ⟨front, rest, rfl, first, second⟩⟩
    · simp only [isMatch_anyRun]
      constructor
      · rintro ⟨run, more, rfl, bare, found⟩
        obtain ⟨front, rest, rfl, first, second⟩ := (ih plain').mp found
        exact ⟨run ++ front, rest, (List.append_assoc _ _ _).symm, ⟨run, front, rfl, bare, first⟩,
          second⟩
      · rintro ⟨_, rest, rfl, ⟨run, front, rfl, bare, first⟩, second⟩
        exact ⟨run, front ++ rest, List.append_assoc _ _ _, bare,
          (ih plain').mpr ⟨front, rest, rfl, first, second⟩⟩
    · exact absurd List.mem_cons_self plain

/-- A second run of directories adds nothing. -/
theorem isMatch_anyPath_anyPath (ps : List Piece) (cs : List Char) :
    isMatch (.anyPath :: .anyPath :: ps) cs = isMatch (.anyPath :: ps) cs := by
  rw [Bool.eq_iff_iff]
  constructor
  · intro twice
    rcases isMatch_anyPath.mp twice with impossible | once | ⟨front, rest, rfl, later⟩
    · cases impossible
    · exact once
    · rw [isMatch_anyPath] at later ⊢
      rcases later with none | here | ⟨more, last, rfl, found⟩
      · exact .inl none
      · exact .inr (.inr ⟨front, rest, rfl, here⟩)
      · exact .inr (.inr ⟨front ++ '/' :: more, last, by simp, found⟩)
  · intro found
    exact isMatch_anyPath.mpr (.inr (.inl found))

/-- Patterns that stand for the same texts do so behind any pieces. -/
theorem isMatch_append_congr (same : ∀ cs, isMatch ps cs = isMatch qs cs) (none : ps = [] ↔ qs = [])
    (front : List Piece) (cs : List Char) : isMatch (front ++ ps) cs = isMatch (front ++ qs) cs := by
  induction front generalizing cs with
  | nil => exact same cs
  | cons piece front ih =>
    have empty : front ++ ps = [] ↔ front ++ qs = [] := by simp [none]
    rw [List.cons_append, List.cons_append, Bool.eq_iff_iff]
    rcases piece.kind with single | rfl | rfl
    · simp only [isMatch_single single, ih]
    · simp only [isMatch_anyRun, ih]
    · simp only [isMatch_anyPath, ih, empty]

end PackageSheet.Glob
