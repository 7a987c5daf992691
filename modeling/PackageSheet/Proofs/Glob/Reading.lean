import Mathlib.Data.List.TakeWhile
import PackageSheet.Proofs.Glob.Matching

/-!
The grammar of patterns. A piece is written by a word (`Written`), and a pattern is read word by
word (`Reads`, `compileFrom_eq_ok_iff`). What is read of a text depends on what is in front of it
only by whether stars may fill a component at its start.
-/

namespace PackageSheet.Glob

/-- The words that write the pieces of patterns, in front of the rest of a text. Two stars write a
run of directories where a component starts, if they fill it, and take its slash with them. -/
inductive Written : Bool → List Char → Piece → List Char → Prop where
  | literal {free : Bool} {c : Char} {rest : List Char}
      (plain : c ≠ '?' ∧ c ≠ '*' ∧ c ≠ '[') : Written free [c] (.literal c) rest
  | anyChar {free : Bool} {rest : List Char} : Written free ['?'] .anyChar rest
  | anyRun {free : Bool} {rest : List Char} (stop : rest.head? ≠ some '*') :
      Written free ['*'] .anyRun rest
  | within {free : Bool} {first : Char} {inner rest : List Char} (plain : first ≠ '!')
      (stop : ']' ∉ inner) :
      Written free ('[' :: first :: inner ++ [']']) (.within (setRanges (first :: inner))) rest
  | outside {free : Bool} {first : Char} {inner rest : List Char} (stop : ']' ∉ inner) :
      Written free ('[' :: '!' :: first :: inner ++ [']'])
        (.outside (setRanges (first :: inner))) rest
  | anyPath {rest : List Char} : Written true ['*', '*', '/'] .anyPath rest
  | anyPathEnd : Written true ['*', '*'] .anyPath []

/-- The pieces that a text is read as, where stars may fill a component at its start or may not. -/
inductive Reads : Bool → List Char → List Piece → Prop where
  | nil {free : Bool} : Reads free [] []
  | cons {free : Bool} {word rest : List Char} {piece : Piece} {ps : List Piece}
      (one : Written free word piece rest)
      (more : Reads (decide (word.getLast? = some '/')) rest ps) :
      Reads free (word ++ rest) (piece :: ps)

variable {index : Nat} {before : Option Char} {c : Char} {cs word rest text inner : List Char}
  {read : PieceRead} {piece : Piece} {ps qs done : List Piece} {free : Bool}

theorem readSet_eq_ok_iff {opening : Nat} {kind : List CharRange → Piece} {first : Char} :
    readSet index kind opening first cs = .ok read ↔
      ∃ inner, cs = inner ++ ']' :: read.rest ∧ ']' ∉ inner ∧
        read.piece = kind (setRanges (first :: inner)) ∧
        read.length = opening + inner.length + 2 := by
  have cut := List.takeWhile_append_dropWhile (p := fun c => c != ']') (l := cs)
  have bare : ']' ∉ cs.takeWhile fun c => c != ']' := fun member => by
    simpa using List.mem_takeWhile_imp member
  unfold readSet
  dsimp only
  constructor
  · intro h
    split at h
    · cases h
    · rename_i stop more found
      cases h
      have closing : stop = ']' := by
        have head := List.head?_dropWhile_not (fun c => c != ']') cs
        simpa [found] using head
      refine ⟨_, ?_, bare, rfl, rfl⟩
      rw [found, closing] at cut
      exact cut.symm
  · rintro ⟨inner, whole, stop, kindEq, lengthEq⟩
    have all : ∀ c ∈ inner, (c != ']') = true := by
      intro c member
      exact bne_iff_ne.mpr fun same => stop (same ▸ member)
    have taken : cs.takeWhile (fun c => c != ']') = inner := by
      rw [whole, List.takeWhile_append_of_pos all]
      simp
    have dropped : cs.dropWhile (fun c => c != ']') = ']' :: read.rest := by
      rw [whole, List.dropWhile_append_of_pos all]
      simp
    rw [dropped, taken]
    dsimp only
    rw [← kindEq, ← lengthEq]

theorem span_stars (stop : cs.head? ≠ some '*') :
    cs.takeWhile (· == '*') = [] ∧ cs.dropWhile (· == '*') = cs := by
  cases cs with
  | nil => exact ⟨rfl, rfl⟩
  | cons first cs =>
    have other : first ≠ '*' := fun same => stop (congrArg some same)
    simp [other]

theorem readStars_one (stop : cs.head? ≠ some '*') :
    readStars index before cs = .ok ⟨.anyRun, 1, cs⟩ := by
  simp [readStars, span_stars stop]

private theorem readStars_many : readStars index before ('*' :: '*' :: cs) =
    .error ⟨.tooManyStars, index + 2⟩ := by
  simp [readStars]

/-- Two stars must fill a component, and the slash behind it goes with them. -/
theorem readStars_two (stop : cs.head? ≠ some '*') :
    readStars index before ('*' :: cs) = .ok read ↔
      decide (index = 0 ∨ before = some '/') = true ∧
        (cs = [] ∧ read = ⟨.anyPath, 2, []⟩ ∨
          ∃ rest, cs = '/' :: rest ∧ read = ⟨.anyPath, 3, rest⟩) := by
  have one : (('*' :: cs).takeWhile (· == '*')).length = 1 := by simp [span_stars stop]
  have left : ('*' :: cs).dropWhile (· == '*') = cs := by simp [span_stars stop]
  simp only [readStars, one, left, Nat.one_ne_zero, if_false, gt_iff_lt, Nat.lt_irrefl]
  by_cases starts : index = 0 ∨ before = some '/'
  · have fills : ¬ (index ≠ 0 ∧ before ≠ some '/') := fun ⟨later, inside⟩ =>
      starts.elim later inside
    rw [if_neg fills, decide_eq_true starts]
    split
    · simp [eq_comm]
    · simp [eq_comm]
    · rename_i nonempty other
      refine iff_of_false nofun ?_
      rintro ⟨-, ⟨none, -⟩ | ⟨rest, slash, -⟩⟩
      · exact nonempty none
      · exact other rest slash
  · have loose : index ≠ 0 ∧ before ≠ some '/' := not_or.mp starts
    rw [if_pos loose, decide_eq_false starts]
    exact iff_of_false nofun nofun

private theorem written_of_readStars (ok : readStars index before cs = .ok read) :
    ∃ word, '*' :: cs = word ++ read.rest ∧ read.length = word.length ∧
      Written (decide (index = 0 ∨ before = some '/')) word read.piece read.rest := by
  by_cases stop : cs.head? = some '*'
  · obtain ⟨cs, rfl⟩ := List.head?_eq_some_iff.mp stop
    by_cases more : cs.head? = some '*'
    · obtain ⟨cs, rfl⟩ := List.head?_eq_some_iff.mp more
      rw [readStars_many] at ok
      cases ok
    · obtain ⟨starts, ⟨rfl, rfl⟩ | ⟨rest, rfl, rfl⟩⟩ := (readStars_two more).mp ok
      · exact ⟨['*', '*'], rfl, rfl, starts ▸ .anyPathEnd⟩
      · exact ⟨['*', '*', '/'], rfl, rfl, starts ▸ .anyPath⟩
  · rw [readStars_one stop] at ok
    cases ok
    exact ⟨['*'], rfl, rfl, .anyRun stop⟩

private theorem readStars_of_written (whole : '*' :: cs = word ++ rest)
    (written : Written (decide (index = 0 ∨ before = some '/')) word piece rest) :
    readStars index before cs = .ok ⟨piece, word.length, rest⟩ := by
  generalize starts : decide (index = 0 ∨ before = some '/') = free at written
  cases written with
  | literal plain => exact absurd (List.cons.inj whole).1.symm plain.2.1
  | anyChar | within | outside => cases whole
  | anyRun stop =>
    obtain ⟨-, rfl⟩ := List.cons.inj whole
    exact readStars_one stop
  | anyPath =>
    obtain ⟨-, rfl⟩ := List.cons.inj whole
    exact (readStars_two (by simp)).mpr ⟨starts, .inr ⟨rest, rfl, rfl⟩⟩
  | anyPathEnd =>
    obtain ⟨-, rfl⟩ := List.cons.inj whole
    exact (readStars_two (by simp)).mpr ⟨starts, .inl ⟨rfl, rfl⟩⟩

private theorem readPiece_within {first : Char} (plain : first ≠ '!') (stop : ']' ∉ inner) :
    readPiece index before '[' (first :: (inner ++ ']' :: rest)) =
      .ok ⟨.within (setRanges (first :: inner)), inner.length + 3, rest⟩ := by
  rw [readPiece]
  · exact readSet_eq_ok_iff.mpr ⟨inner, rfl, stop, rfl, by dsimp only; omega⟩
  · exact fun _ _ marked _ => plain marked
  · exact fun marked _ => plain marked

private theorem readPiece_outside {first : Char} (stop : ']' ∉ inner) :
    readPiece index before '[' ('!' :: first :: (inner ++ ']' :: rest)) =
      .ok ⟨.outside (setRanges (first :: inner)), inner.length + 4, rest⟩ :=
  readSet_eq_ok_iff.mpr ⟨inner, rfl, stop, rfl, by dsimp only; omega⟩

private theorem written_of_readPiece (ok : readPiece index before c cs = .ok read) :
    ∃ word, c :: cs = word ++ read.rest ∧ read.length = word.length ∧
      Written (decide (index = 0 ∨ before = some '/')) word read.piece read.rest := by
  unfold readPiece at ok
  split at ok
  · cases ok
    exact ⟨['?'], rfl, rfl, .anyChar⟩
  · exact written_of_readStars ok
  · split at ok
    · obtain ⟨inner, rfl, stop, kind, long⟩ := readSet_eq_ok_iff.mp ok
      rw [kind, long]
      exact ⟨_, by simp, by simp; omega, .outside stop⟩
    · cases ok
    · rename_i first _ unmarked _
      obtain ⟨inner, rfl, stop, kind, long⟩ := readSet_eq_ok_iff.mp ok
      have plain : first ≠ '!' := by
        rintro rfl
        cases inner with
        | nil => exact unmarked _ _ rfl rfl
        | cons second inner => exact unmarked _ _ rfl rfl
      rw [kind, long]
      exact ⟨_, by simp, by simp; omega, .within plain stop⟩
    · cases ok
  · rename_i one two three
    cases ok
    exact ⟨[c], rfl, rfl, .literal ⟨one, two, three⟩⟩

theorem readPiece_of_written (whole : c :: cs = word ++ rest)
    (written : Written (decide (index = 0 ∨ before = some '/')) word piece rest) :
    readPiece index before c cs = .ok ⟨piece, word.length, rest⟩ := by
  by_cases star : c = '*'
  · subst star
    exact readStars_of_written whole written
  generalize decide (index = 0 ∨ before = some '/') = free at written
  cases written with
  | literal plain =>
    obtain ⟨rfl, rfl⟩ := List.cons.inj whole
    obtain ⟨one, two, three⟩ := plain
    unfold readPiece
    split <;> first | contradiction | rfl
  | anyChar =>
    obtain ⟨rfl, rfl⟩ := List.cons.inj whole
    rfl
  | within plain stop =>
    obtain ⟨rfl, rfl⟩ := List.cons.inj whole
    simpa using readPiece_within plain stop
  | outside stop =>
    obtain ⟨rfl, rfl⟩ := List.cons.inj whole
    simpa using readPiece_outside stop
  | anyRun | anyPath | anyPathEnd => exact absurd (List.cons.inj whole).1 star

/-! ### Whole texts -/

theorem Written.ne_nil (written : Written free word piece rest) : word ≠ [] := by
  cases written <;> simp

theorem Reads.of_nil (reads : Reads free [] ps) : ps = [] := by
  generalize textEq : ([] : List Char) = text at reads
  cases reads with
  | nil => rfl
  | cons one => exact absurd (List.append_eq_nil_iff.mp textEq.symm).1 one.ne_nil

/-- A text is compiled into the pieces it is read as, put one after another. -/
theorem compileFrom_eq_ok_iff {result : List Piece} :
    compileFrom text index before done = .ok result ↔
      ∃ ps, Reads (decide (index = 0 ∨ before = some '/')) text ps ∧
        result = (ps.foldl (fun done piece => push piece done) done).reverse := by
  fun_induction compileFrom text index before done with
  | case1 index before done =>
    constructor
    · intro h
      cases h
      exact ⟨[], .nil, rfl⟩
    · rintro ⟨ps, reads, rfl⟩
      rw [reads.of_nil]
      rfl
  | case2 index before done c cs fault failed =>
    refine iff_of_false nofun ?_
    rintro ⟨ps, reads, -⟩
    generalize textEq : c :: cs = text at reads
    cases reads with
    | nil => cases textEq
    | @cons _ word rest piece ps one =>
      have ok : readPiece index before c cs = .ok ⟨piece, word.length, rest⟩ :=
        readPiece_of_written textEq one
      rw [failed] at ok
      cases ok
  | case3 index before done c cs read found last ih =>
    obtain ⟨word, whole, long, one⟩ := written_of_readPiece found
    have endEq : last = word.getLast? := by
      simp only [last, whole, long, List.take_left']
    have later : decide (index + read.length = 0 ∨ last = some '/') =
        decide (word.getLast? = some '/') := by
      have positive := List.length_pos_iff.mpr one.ne_nil
      rw [endEq, long, decide_eq_decide]
      constructor
      · rintro (none | slash)
        · omega
        · exact slash
      · exact .inr
    rw [ih, later]
    constructor
    · rintro ⟨ps, reads, rfl⟩
      exact ⟨read.piece :: ps, whole ▸ .cons one reads, rfl⟩
    · rintro ⟨all, reads, rfl⟩
      generalize textEq : c :: cs = text at reads
      cases reads with
      | nil => cases textEq
      | @cons _ other rest piece ps first more =>
        have ok : readPiece index before c cs = .ok ⟨piece, other.length, rest⟩ :=
          readPiece_of_written textEq first
        rw [found] at ok
        cases ok
        obtain ⟨rfl, -⟩ := List.append_inj' (whole.symm.trans textEq) rfl
        exact ⟨ps, more, rfl⟩

/-- Pieces put one after another, some runs of directories left out. -/
def merged (ps : List Piece) : List Piece :=
  (ps.foldl (fun done piece => push piece done) []).reverse

theorem compile_eq_ok_iff {result : List Piece} :
    compile text = .ok result ↔ ∃ ps, Reads true text ps ∧ result = merged ps :=
  compileFrom_eq_ok_iff

private theorem isMatch_foldl_push (done ps : List Piece) (cs : List Char) :
    isMatch (ps.foldl (fun done piece => push piece done) done).reverse cs =
      isMatch (done.reverse ++ ps) cs := by
  induction ps generalizing done with
  | nil => simp
  | cons piece ps ih =>
    rw [List.foldl_cons, ih, push]
    split
    · rename_i again
      obtain ⟨rfl, last, -⟩ := again
      obtain ⟨front, rfl⟩ := List.head?_eq_some_iff.mp last
      rw [List.reverse_cons, List.append_assoc, List.append_assoc]
      exact (isMatch_append_congr (isMatch_anyPath_anyPath ps) (by simp) front.reverse cs).symm
    · simp

theorem isMatch_merged (ps : List Piece) (cs : List Char) :
    isMatch (merged ps) cs = isMatch ps cs :=
  isMatch_foldl_push [] ps cs

private theorem foldl_push_of_plain (plain : .anyPath ∉ ps) (done : List Piece) :
    ps.foldl (fun done piece => push piece done) done = ps.reverse ++ done := by
  induction ps generalizing done with
  | nil => rfl
  | cons piece ps ih =>
    have other : piece ≠ .anyPath := Ne.symm (List.ne_of_not_mem_cons plain)
    rw [List.foldl_cons, push, if_neg fun both => other both.1,
      ih (List.not_mem_of_not_mem_cons plain)]
    simp

theorem merged_of_plain (plain : .anyPath ∉ ps) : merged ps = ps := by
  rw [merged, foldl_push_of_plain plain]
  simp

/-! ### Components -/

private theorem Written.before_slash (written : Written free word piece rest) (other : piece ≠ .anyPath)
    (more : List Char) : Written free word piece (rest ++ '/' :: more) := by
  cases written with
  | literal plain => exact .literal plain
  | anyChar => exact .anyChar
  | anyRun stop =>
    refine .anyRun ?_
    cases rest with
    | nil => exact by simp
    | cons c rest => exact stop
  | within plain stop => exact .within plain stop
  | outside stop => exact .outside stop
  | anyPath | anyPathEnd => exact absurd rfl other

theorem Reads.slash (reads : Reads true rest ps) :
    Reads free ('/' :: rest) (.literal '/' :: ps) :=
  .cons (.literal (by decide)) reads

/-- A component by itself is either two stars, which stand for any run of directories, or has no
such run. -/
theorem Reads.component (reads : Reads free text ps) (bare : '/' ∉ text) :
    (free = true ∧ text = ['*', '*'] ∧ ps = [.anyPath]) ∨ .anyPath ∉ ps := by
  induction reads with
  | nil => exact .inr List.not_mem_nil
  | @cons free word rest piece ps one more ih =>
    have inner : '/' ∉ word := fun member => bare (List.mem_append_left _ member)
    have later : decide (word.getLast? = some '/') = false := by
      rw [decide_eq_false_iff_not]
      exact fun last => inner (List.mem_of_getLast? last)
    have outer : .anyPath ∉ ps := by
      rcases ih fun member => bare (List.mem_append_right _ member) with ⟨starts, -⟩ | plain
      · rw [later] at starts
        cases starts
      · exact plain
    cases one with
    | anyPath => exact absurd (by simp) inner
    | anyPathEnd =>
      rw [more.of_nil]
      exact .inl ⟨rfl, rfl, rfl⟩
    | literal | anyChar | anyRun | within | outside =>
      exact .inr (List.not_mem_cons_of_ne_of_not_mem nofun outer)

/-- A component without a run of directories is read in front of others as it is by itself. -/
theorem Reads.join (reads : Reads free text ps) (plain : .anyPath ∉ ps) (bare : '/' ∉ text)
    (others : Reads true rest qs) :
    Reads free (text ++ '/' :: rest) (ps ++ .literal '/' :: qs) := by
  induction reads with
  | nil => exact others.slash
  | @cons free word tail piece ps one more ih =>
    have other : piece ≠ .anyPath := Ne.symm (List.ne_of_not_mem_cons plain)
    rw [List.append_assoc]
    exact .cons (one.before_slash other rest) (ih (List.not_mem_of_not_mem_cons plain)
      fun member => bare (List.mem_append_right _ member))

theorem Reads.descent (others : Reads true rest qs) :
    Reads true ('*' :: '*' :: '/' :: rest) (.anyPath :: qs) :=
  .cons .anyPath others

end PackageSheet.Glob
