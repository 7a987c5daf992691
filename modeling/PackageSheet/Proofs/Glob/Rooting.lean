import PackageSheet.Glob.Rooted
import PackageSheet.Proofs.Glob.Reading
import PackageSheet.Proofs.Path.Spelling

namespace PackageSheet.Glob

variable {free : Bool} {word rest text root cs : List Char} {piece : Piece} {ps all : List Piece}
  {c : Char}

private theorem Written.unique {word' rest' : List Char} {piece' : Piece}
    (one : Written free word piece rest) (other : Written free word' piece' rest')
    (same : word ++ rest = word' ++ rest') : word = word' ∧ piece = piece' ∧ rest = rest' := by
  let index := if free then 0 else 1
  have starts : decide (index = 0 ∨ (none : Option Char) = some '/') = free := by
    cases free <;> rfl
  obtain ⟨c, cs, whole⟩ := List.exists_cons_of_ne_nil
    (List.append_ne_nil_of_left_ne_nil one.ne_nil rest)
  have first : readPiece index none c cs = .ok ⟨piece, word.length, rest⟩ :=
    readPiece_of_written whole.symm (starts ▸ one)
  have second : readPiece index none c cs = .ok ⟨piece', word'.length, rest'⟩ :=
    readPiece_of_written (same.symm.trans whole).symm (starts ▸ other)
  rw [first, Except.ok.injEq, PieceRead.mk.injEq] at second
  obtain ⟨kind, -, left⟩ := second
  exact ⟨(List.append_inj' same (congrArg List.length left)).1, kind, left⟩

/-- What is read of a word and the rest begins with the piece of the word. -/
theorem Reads.split (written : Written free word piece rest) :
    Reads free (word ++ rest) all ↔
      ∃ ps, all = piece :: ps ∧ Reads (decide (word.getLast? = some '/')) rest ps := by
  constructor
  · intro reads
    generalize same : word ++ rest = text at reads
    cases reads with
    | nil => exact absurd (List.append_eq_nil_iff.mp same).1 written.ne_nil
    | @cons _ _ _ _ ps one more =>
      obtain ⟨rfl, rfl, rfl⟩ := written.unique one same
      exact ⟨ps, rfl, more⟩
  · rintro ⟨ps, rfl, more⟩
    exact .cons written more

def exactly (c : Char) : Piece :=
  if isMeta c then .within [⟨c, c⟩] else .literal c

def escaped (c : Char) : List Char :=
  if isMeta c then ['[', c, ']'] else [c]

theorem written_escaped (c : Char) (rest : List Char) :
    Written free (escaped c) (exactly c) rest := by
  unfold escaped exactly
  split
  · rename_i special
    have plain : c ≠ '!' := by
      rintro rfl
      exact absurd special (by decide)
    exact .within plain List.not_mem_nil
  · rename_i plain
    refine .literal ⟨?_, ?_, ?_⟩ <;>
    · rintro rfl
      exact absurd rfl plain

theorem isSingle_exactly (c : Char) : (exactly c).IsSingle := by
  unfold exactly
  split <;> trivial

private theorem accepts_exactly {c d : Char} : (exactly c).accepts d = true ↔ d = c := by
  unfold exactly
  split
  · rename_i special
    have other : c ≠ '/' := by
      rintro rfl
      exact absurd special (by decide)
    constructor
    · intro within
      simp only [Piece.accepts, CharRange.has, List.any_cons, List.any_nil, Bool.or_false,
        Bool.and_eq_true, decide_eq_true_eq] at within
      exact (Char.le_antisymm within.2.1 within.2.2).symm
    · rintro rfl
      simp [Piece.accepts, CharRange.has, other]
  · rw [Piece.accepts, beq_iff_eq]
    exact eq_comm

/-- An escaped text in front of a slash is read as the pieces for its characters. -/
theorem reads_escape :
    Reads free (escape root ++ '/' :: text) all ↔
      ∃ ps, all = root.map exactly ++ .literal '/' :: ps ∧ Reads true text ps := by
  induction root generalizing free all with
  | nil =>
    have slash : Written free ['/'] (.literal '/') text := .literal (by decide)
    exact Reads.split slash
  | cons c root ih =>
    have step : escape (c :: root) ++ '/' :: text = escaped c ++ (escape root ++ '/' :: text) := by
      rw [escape, List.flatMap_cons, List.append_assoc]
      rfl
    rw [step, Reads.split (written_escaped c _)]
    constructor
    · rintro ⟨_, rfl, more⟩
      obtain ⟨ps, rfl, reads⟩ := ih.mp more
      exact ⟨ps, rfl, reads⟩
    · rintro ⟨ps, rfl, reads⟩
      exact ⟨_, rfl, ih.mpr ⟨ps, rfl, reads⟩⟩

theorem isMatch_exactly :
    isMatch (root.map exactly ++ ps) cs = true ↔ ∃ rest, cs = root ++ rest ∧ isMatch ps rest = true
    := by
  induction root generalizing cs with
  | nil => simp
  | cons c root ih =>
    rw [List.map_cons, List.cons_append, isMatch_single (isSingle_exactly c)]
    constructor
    · rintro ⟨d, more, rfl, same, found⟩
      obtain ⟨rest, rfl, inner⟩ := ih.mp found
      exact ⟨rest, by rw [accepts_exactly.mp same]; rfl, inner⟩
    · rintro ⟨rest, rfl, found⟩
      exact ⟨c, root ++ rest, rfl, accepts_exactly.mpr rfl, ih.mpr ⟨rest, rfl, found⟩⟩

/-- A pattern behind an escaped text and a slash is a pattern exactly if it is one by itself, and
stands for the texts that go on as it says behind that text and a slash. -/
theorem compile_below {result : List Piece}
    (compiled : compile (escape root ++ '/' :: text) = .ok result) :
    ∃ inner, compile text = .ok inner ∧
      ∀ cs, isMatch result cs = true ↔ ∃ rest, cs = root ++ '/' :: rest ∧ isMatch inner rest = true
    := by
  obtain ⟨all, reads, rfl⟩ := compile_eq_ok_iff.mp compiled
  obtain ⟨ps, rfl, inner⟩ := reads_escape.mp reads
  refine ⟨merged ps, compile_eq_ok_iff.mpr ⟨ps, inner, rfl⟩, fun cs => ?_⟩
  rw [isMatch_merged, isMatch_exactly]
  constructor
  · rintro ⟨_, rfl, found⟩
    obtain ⟨rest, rfl, last⟩ := isMatch_literal.mp found
    exact ⟨rest, rfl, (isMatch_merged ps rest).trans last⟩
  · rintro ⟨rest, rfl, found⟩
    exact ⟨_, rfl, isMatch_literal.mpr ⟨rest, rfl, (isMatch_merged ps rest).symm.trans found⟩⟩

/-- What is a pattern by itself is one behind an escaped text and a slash. -/
theorem compile_above (root : List Char) {inner : List Piece} (own : compile text = .ok inner) :
    ∃ result, compile (escape root ++ '/' :: text) = .ok result := by
  obtain ⟨ps, reads, -⟩ := compile_eq_ok_iff.mp own
  exact ⟨_, compile_eq_ok_iff.mpr ⟨_, reads_escape.mpr ⟨ps, rfl, reads⟩, rfl⟩⟩

namespace Exclusion

theorem mem_tails {tail steps : List Component} : tail ∈ tails steps ↔ tail <:+ steps ∧ tail ≠ [] := by
  induction steps with
  | nil => simp [tails]
  | cons c steps ih =>
    rw [tails, List.mem_cons, ih, List.suffix_cons_iff, or_and_right]
    refine or_congr_left ?_
    constructor
    · rintro rfl
      exact ⟨rfl, List.cons_ne_nil c steps⟩
    · exact And.left

/-- A relative exclusion takes out a path whose last names it stands for. -/
theorem excludes_of_names {exclusion : Exclusion} {source : Path} {steps : List Component}
    {names : List String} (relative : exclusion.absolute = false)
    (components : source.components = steps ++ names.map .name) (some : names ≠ [])
    (bare : ∀ name ∈ names, Path.IsBare name.toList)
    (found : isMatch exclusion.pieces (['/'].intercalate (names.map String.toList)) = true) :
    exclusion.excludes source = true := by
  unfold excludes
  rw [if_neg (by simp [relative]), List.any_eq_true]
  refine ⟨names.map .name, mem_tails.mpr ⟨?_, by simpa using some⟩, ?_⟩
  · rw [components, List.filter_append]
    have all : (names.map Component.name).filter (·.isName) = names.map .name :=
      List.filter_eq_self.mpr (List.forall_mem_map.mpr fun _ _ => rfl)
    rw [all]
    exact List.suffix_append _ _
  · rwa [Path.text_ofComponents bare]

end Exclusion

end PackageSheet.Glob
