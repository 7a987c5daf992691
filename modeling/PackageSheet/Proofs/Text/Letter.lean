import PackageSheet.Text.Blank
import PackageSheet.Token.Lexeme

namespace PackageSheet

namespace Text

def blanks : List Nat :=
  [0x9, 0xA, 0xB, 0xC, 0xD, 0x20, 0x85, 0xA0, 0x1680, 0x2000, 0x2001, 0x2002, 0x2003, 0x2004,
    0x2005, 0x2006, 0x2007, 0x2008, 0x2009, 0x200A, 0x2028, 0x2029, 0x202F, 0x205F, 0x3000]

private theorem toNat_mem_blanks {c : Char} (blank : isBlank c = true) : c.toNat ∈ blanks := by
  have space : c = ' ' ↔ c.toNat = 0x20 := by
    rw [← Char.toNat_inj]
    rfl
  simp only [isBlank, Bool.or_eq_true, beq_iff_eq, Bool.and_eq_true, decide_eq_true_eq, space]
    at blank
  simp only [blanks, List.mem_cons, List.not_mem_nil, or_false]
  omega

private theorem isLetter_of_isBlank {c : Char} (blank : isBlank c = true) : isLetter c = false := by
  have member := toNat_mem_blanks blank
  -- the table is searched as a list: the kernel is slow to search an array
  have beyond : ∀ n ∈ blanks, alphabetic.toList.any (fun r => r.1 ≤ n && n ≤ r.2) = false := by
    decide +kernel
  have ascii : ∀ n ∈ blanks, (('a' ≤ Char.ofNat n && Char.ofNat n ≤ 'z') ||
      ('A' ≤ Char.ofNat n && Char.ofNat n ≤ 'Z')) = false := by
    decide +kernel
  unfold isLetter
  split
  · simpa only [Char.ofNat_toNat] using ascii _ member
  · rw [Intervals.has, ← Array.any_toList]
    exact beyond _ member

end Text

variable {dialect : Dialect} {c : Char}

theorem isBlank_of_isStart (start : dialect.isStart c = true) : Text.isBlank c = false := by
  refine Bool.eq_false_iff.mpr fun blank => ?_
  simp only [Dialect.isStart, Text.isLetter_of_isBlank blank, Bool.false_or, beq_iff_eq] at start
  subst start
  exact absurd blank (by decide)

/-- A character that does not begin identifiers is another one than those that do. -/
theorem ne_of_isStart {other : Char} (start : dialect.isStart c = true)
    (noStart : dialect.isStart other = false) : c ≠ other := by
  rintro rfl
  rw [start] at noStart
  cases noStart

theorem isPart_of_isStart (start : dialect.isStart c = true) : dialect.isPart c = true := by
  rcases Bool.or_eq_true_iff.mp start with letter | underscore
  · simp [Dialect.isPart, letter]
  · simp [Dialect.isPart, underscore]

theorem single?_of_isStart (start : dialect.isStart c = true) : Lexeme.single? c = none := by
  unfold Lexeme.single?
  split <;> first | rfl | exact absurd start (by cases dialect <;> decide)

end PackageSheet
