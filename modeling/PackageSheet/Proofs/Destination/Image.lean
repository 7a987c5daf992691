import Mathlib.Data.Set.Operations
import Mathlib.Logic.Function.Iterate
import PackageSheet.Proofs.Destination.Normal

namespace PackageSheet.Destination

variable {cs : List Char} {text : String}

private theorem dropDoubleDots_of_not_dots (free : ¬ ['.', '.'] <:+: cs) : dropDoubleDots cs = cs := by
  fun_induction dropDoubleDots cs with
  | case1 cs => exact absurd (List.prefix_append ['.', '.'] cs).isInfix free
  | case2 c cs plain ih =>
    rw [List.infix_cons_iff, not_or] at free
    rw [ih free.2]
  | case3 => rfl

private theorem collapseSlashes_of_not_slashes (free : ¬ ['/', '/'] <:+: cs) :
    collapseSlashes cs = cs := by
  fun_induction collapseSlashes cs with
  | case1 cs => exact absurd (List.prefix_append ['/', '/'] cs).isInfix free
  | case2 c cs plain ih =>
    rw [List.infix_cons_iff, not_or] at free
    rw [ih free.2]
  | case3 => rfl

private theorem dropRelativeStart_of_not_start (dots : ¬ ['.', '.'] <:+: cs)
    (start : ¬ ['.', '/'] <+: cs) :
    dropRelativeStart cs = cs := by
  unfold dropRelativeStart
  split
  · rename_i cs
    exact absurd (List.prefix_append ['.', '.'] ('/' :: cs)).isInfix dots
  · rename_i cs
    exact absurd (List.prefix_append ['.', '/'] cs) start
  · rfl

private theorem trimSlashes_of_ends (head : cs.head? ≠ some '/') (last : cs.getLast? ≠ some '/') :
    trimSlashes cs = cs := by
  have front : cs.dropWhile (· == '/') = cs := by
    cases cs with
    | nil => rfl
    | cons c cs => exact List.dropWhile_cons_of_neg (by simpa using head)
  have back : cs.rdropWhile (· == '/') = cs := by
    rw [List.rdropWhile_eq_self_iff]
    intro some slash
    rw [List.getLast?_eq_some_getLast some, eq_of_beq slash] at last
    exact last rfl
  rw [trimSlashes, front]
  exact back

/-- A round does not change a text in normal form. -/
theorem normalizeOnce_of_isNormal (normal : IsNormal cs) : normalizeOnce cs = cs := by
  unfold normalizeOnce
  rw [dropDoubleDots_of_not_dots normal.dots, collapseSlashes_of_not_slashes normal.slashes,
    dropRelativeStart_of_not_start normal.dots normal.start,
    trimSlashes_of_ends normal.head normal.last]
  exact if_neg normal.single

/-- Each round but the last leaves a character out, so there are no more rounds than characters. -/
theorem exists_rounds (cs : List Char) :
    ∃ rounds ≤ cs.length, normalizeOnce^[rounds] cs = normalizeChars cs := by
  fun_induction normalizeChars cs with
  | case1 cs next fixed => exact ⟨0, Nat.zero_le _, fixed.symm⟩
  | case2 cs next changed ih =>
    obtain ⟨rounds, few, reached⟩ := ih
    have kept : next.Sublist cs := normalizeOnce_sublist cs
    have shorter : next.length < cs.length :=
      Nat.lt_of_le_of_ne kept.length_le fun same => changed (kept.eq_of_length same)
    exact ⟨rounds + 1, by omega, reached⟩

def slashed (raw : String) : List Char :=
  raw.toList.map fun c => if c = '\\' then '/' else c

theorem toList_normalize (raw : String) : (normalize raw).toList = normalizeChars (slashed raw) :=
  String.toList_ofList

private theorem not_mem_slashed (raw : String) : '\\' ∉ slashed raw := by
  rw [slashed, List.mem_map]
  rintro ⟨c, -, same⟩
  split at same
  · cases same
  next other => exact other same

private theorem slashed_of_not_mem (free : '\\' ∉ text.toList) : slashed text = text.toList := by
  refine (List.map_congr_left fun c member => if_neg ?_).trans (List.map_id' _)
  rintro rfl
  exact free member

private theorem normalizeChars_sublist (cs : List Char) : (normalizeChars cs).Sublist cs := by
  fun_induction normalizeChars cs with
  | case1 cs next fixed => exact normalizeOnce_sublist cs
  | case2 cs next changed ih => exact ih.trans (normalizeOnce_sublist cs)

private theorem not_mem_normalize (raw : String) : '\\' ∉ (normalize raw).toList := by
  rw [toList_normalize]
  exact fun member => not_mem_slashed raw ((normalizeChars_sublist _).subset member)

private theorem normalize_of_isNormal (free : '\\' ∉ text.toList) (normal : IsNormal text.toList) :
    normalize text = text := by
  rw [← String.toList_inj, toList_normalize, slashed_of_not_mem free, normalizeChars]
  simp [normalizeOnce_of_isNormal normal]

/-- Normalization ends: after some rounds, no more than there are characters, one more changes nothing.
It is idempotent, and results exactly in the texts without backslashes that are in normal form, each of
which it keeps. -/
theorem range_normalize :
    (∀ raw : String, ∃ rounds ≤ raw.length,
      normalizeOnce^[rounds] (slashed raw) = (normalize raw).toList ∧
        normalizeOnce^[rounds + 1] (slashed raw) = (normalize raw).toList) ∧
    (∀ raw, normalize (normalize raw) = normalize raw) ∧
    Set.range normalize = {text | '\\' ∉ text.toList ∧ IsNormal text.toList} ∧
    ∀ text, '\\' ∉ text.toList → IsNormal text.toList → normalize text = text := by
  refine ⟨fun raw => ?_, fun raw => ?_, Set.ext fun text => ⟨?_, ?_⟩,
    fun text => normalize_of_isNormal⟩
  · obtain ⟨rounds, few, reached⟩ := exists_rounds (slashed raw)
    rw [slashed, List.length_map, String.length_toList] at few
    rw [← toList_normalize] at reached
    refine ⟨rounds, few, reached, ?_⟩
    rw [Function.iterate_succ_apply', reached, normalizeOnce_of_isNormal (isNormal_normalize raw)]
  · exact normalize_of_isNormal (not_mem_normalize raw) (isNormal_normalize raw)
  · rintro ⟨raw, rfl⟩
    exact ⟨not_mem_normalize raw, isNormal_normalize raw⟩
  · rintro ⟨free, normal⟩
    exact ⟨text, normalize_of_isNormal free normal⟩

end PackageSheet.Destination
