import Mathlib.Data.List.DropRight
import PackageSheet.Text.Blank

namespace PackageSheet.Text

/-- A text that neither begins nor ends with a blank. -/
structure Bare (cs : List Char) : Prop where
  head : ∀ c ∈ cs.head?, isBlank c = false
  last : ∀ c ∈ cs.getLast?, isBlank c = false

variable {cs : List Char}

theorem trimEnd_eq_rdropWhile (cs : List Char) : trimEnd cs = cs.rdropWhile isBlank := rfl

private theorem dropWhile_eq_self (head : ∀ c ∈ cs.head?, isBlank c = false) :
    cs.dropWhile isBlank = cs := by
  cases cs with
  | nil => rfl
  | cons c cs => exact List.dropWhile_cons_of_neg (by simp [head c rfl])

theorem trim_of_bare (bare : Bare cs) : trim cs = cs := by
  rw [trim, dropWhile_eq_self bare.head, trimEnd_eq_rdropWhile, List.rdropWhile_eq_self_iff]
  intro some
  simp [bare.last _ (List.getLast?_eq_some_getLast some)]

theorem bare_trim (cs : List Char) : Bare (trim cs) where
  head c first := by
    have start : (cs.dropWhile isBlank).head? = some c := by
      obtain ⟨rest, whole⟩ := trimEnd_isPrefix (cs.dropWhile isBlank)
      rw [← whole, List.head?_append]
      exact congrArg (·.or rest.head?) first
    have := List.head?_dropWhile_not isBlank cs
    rw [start] at this
    simpa using this
  last c final := by
    have some : trim cs ≠ [] := by
      rintro none
      rw [none] at final
      cases final
    rw [List.getLast?_eq_some_getLast some] at final
    cases final
    exact Bool.eq_false_iff.mpr (List.rdropWhile_last_not isBlank _ some)

@[simp] theorem trim_trim (cs : List Char) : trim (trim cs) = trim cs :=
  trim_of_bare (bare_trim cs)

theorem trim_eq_nil_iff : trim cs = [] ↔ ∀ c ∈ cs, isBlank c := by
  rw [trim, trimEnd_eq_rdropWhile, List.rdropWhile_eq_nil_iff]
  constructor
  · intro left c member
    by_contra visible
    have kept : c ∈ cs.dropWhile isBlank := by
      rw [← List.takeWhile_append_dropWhile (p := isBlank) (l := cs)] at member
      refine (List.mem_append.mp member).resolve_left fun taken => ?_
      exact visible (List.mem_takeWhile_imp taken)
    exact visible (left c kept)
  · exact fun blank c member => blank c ((List.dropWhile_sublist _).subset member)

end PackageSheet.Text
