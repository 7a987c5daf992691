import Mathlib.Data.List.DropRight
import PackageSheet.Destination
import PackageSheet.Proofs.Path.Components

namespace PackageSheet.Destination

/-- A text in normal form: no two dots and no two slashes next to each other, no `./` at its start,
no slash at its ends, and not a dot alone. -/
structure IsNormal (cs : List Char) : Prop where
  dots : ¬ ['.', '.'] <:+: cs
  slashes : ¬ ['/', '/'] <:+: cs
  start : ¬ ['.', '/'] <+: cs
  head : cs.head? ≠ some '/'
  last : cs.getLast? ≠ some '/'
  single : cs ≠ ['.']

variable {cs : List Char}

/-- Two characters that a text does not begin with are next to each other in the rest of it only. -/
theorem not_infix_cons {a b c : Char} (plain : ∀ more, c = a → cs = b :: more → False)
    (rest : ¬ [a, b] <:+: cs) : ¬ [a, b] <:+: c :: cs := by
  intro inside
  rcases List.infix_cons_iff.mp inside with first | later
  · obtain ⟨more, whole⟩ := first
    obtain ⟨rfl, rfl⟩ := List.cons.inj whole
    exact plain more rfl rfl
  · exact rest later

private theorem not_dots_of_fixed (fixed : dropDoubleDots cs = cs) : ¬ ['.', '.'] <:+: cs := by
  fun_induction dropDoubleDots cs with
  | case1 cs ih =>
    have shorter := (dropDoubleDots_sublist cs).length_le
    rw [fixed, List.length_cons, List.length_cons] at shorter
    omega
  | case2 c cs plain ih => exact not_infix_cons plain (ih (List.cons.inj fixed).2)
  | case3 => simp

private theorem not_slashes_of_fixed (fixed : collapseSlashes cs = cs) : ¬ ['/', '/'] <:+: cs := by
  fun_induction collapseSlashes cs with
  | case1 cs ih =>
    have shorter := (collapseSlashes_sublist ('/' :: cs)).length_le
    rw [fixed, List.length_cons, List.length_cons] at shorter
    omega
  | case2 c cs plain ih => exact not_infix_cons plain (ih (List.cons.inj fixed).2)
  | case3 => simp

private theorem not_relative_of_fixed (fixed : dropRelativeStart cs = cs) : ¬ ['.', '/'] <+: cs := by
  rintro ⟨more, rfl⟩
  have shorter := (dropRelativeStart_sublist more).length_le
  have dropped : dropRelativeStart (['.', '/'] ++ more) = dropRelativeStart more := by
    simp [dropRelativeStart]
  rw [← dropped, fixed, List.length_append, List.length_cons] at shorter
  omega

private theorem ends_of_fixed (fixed : trimSlashes cs = cs) :
    cs.head? ≠ some '/' ∧ cs.getLast? ≠ some '/' := by
  have back : (cs.dropWhile (· == '/')).rdropWhile (· == '/') = cs := fixed
  have front : cs.dropWhile (· == '/') = cs := by
    refine (List.dropWhile_sublist _).antisymm ?_
    conv_lhs => rw [← back]
    exact (List.rdropWhile_prefix _ _).sublist
  constructor
  · intro slash
    have kept := List.head?_dropWhile_not (· == '/') cs
    rw [front, slash] at kept
    cases kept
  · intro slash
    rw [front, List.rdropWhile_eq_self_iff] at back
    obtain ⟨more, rfl⟩ := List.getLast?_eq_some_iff.mp slash
    exact back (by simp) (by simp)

private theorem isNormal_of_fixed (fixed : normalizeOnce cs = cs) : IsNormal cs := by
  have first := dropDoubleDots_sublist cs
  have second := collapseSlashes_sublist (dropDoubleDots cs)
  have third := dropRelativeStart_sublist (collapseSlashes (dropDoubleDots cs))
  have fourth := trimSlashes_sublist (dropRelativeStart (collapseSlashes (dropDoubleDots cs)))
  unfold normalizeOnce at fixed
  dsimp only at fixed
  split at fixed
  · rename_i dot
    subst fixed
    exact absurd dot (by decide)
  · rename_i single
    rw [fixed] at fourth single
    -- each stage only leaves characters out, so none of them changes what the round does not change
    have dots : dropDoubleDots cs = cs := first.antisymm ((fourth.trans third).trans second)
    rw [dots] at second third fourth fixed
    have slashes : collapseSlashes cs = cs := second.antisymm (fourth.trans third)
    rw [slashes] at third fourth fixed
    have start : dropRelativeStart cs = cs := third.antisymm fourth
    rw [start] at fixed
    obtain ⟨head, last⟩ := ends_of_fixed fixed
    exact ⟨not_dots_of_fixed dots, not_slashes_of_fixed slashes, not_relative_of_fixed start, head,
      last, single⟩

theorem normalizeOnce_normalizeChars (cs : List Char) :
    normalizeOnce (normalizeChars cs) = normalizeChars cs := by
  fun_induction normalizeChars cs with
  | case1 cs next fixed => exact congrArg normalizeOnce fixed
  | case2 cs next changed ih => exact ih

/-- What is normalized is in normal form. -/
theorem isNormal_normalize (raw : String) : IsNormal (normalize raw).toList := by
  rw [normalize, String.toList_ofList]
  exact isNormal_of_fixed (normalizeOnce_normalizeChars _)

theorem IsNormal.isNamed (normal : IsNormal cs) : (Path.mk (String.ofList cs)).IsNamed := by
  have free : (Path.mk (String.ofList cs)).anchor = none := by
    have whole := Path.intercalate_segments cs
    rcases Path.divide_cases (Path.mk (String.ofList cs)) with
      ⟨found, -⟩ | ⟨rest, some, -, text⟩ | ⟨rest, -, text⟩
    · rw [Path.anchor, found]
    · rw [String.toList_ofList] at text
      obtain ⟨second, others, rfl⟩ := List.exists_cons_of_ne_nil some
      rw [text] at whole
      exact absurd (by rw [← whole]; rfl) normal.head
    · rw [String.toList_ofList] at text
      rw [text] at whole
      cases rest with
      | nil => exact absurd whole.symm normal.single
      | cons second others => exact absurd ⟨_, whole⟩ normal.start
  intro c member
  rw [Path.components_eq, free, String.toList_ofList] at member
  obtain ⟨segment, kept, rfl⟩ := List.mem_map.mp member
  have known := (List.mem_filter.mp kept).1
  unfold Path.step
  split
  · rename_i dots
    exact absurd (dots ▸ Path.isInfix_of_mem_segments known) normal.dots
  · rfl

end PackageSheet.Destination
