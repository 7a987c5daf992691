import Mathlib.Data.List.Lex
import Mathlib.Data.Prod.Lex
import Mathlib.Data.String.Basic
import PackageSheet.Path

namespace PackageSheet

/-- What a component is ordered by: its kind, and then the text of a name. -/
def Component.key (c : Component) : ℕ ×ₗ String :=
  toLex (c.rank, if c.isName then c.text else "")

theorem Component.key_injective : Function.Injective Component.key := by
  intro a b same
  obtain ⟨rank, text⟩ := Prod.mk.inj (toLex.injective same)
  cases a <;> cases b <;> simp_all [Component.rank, Component.isName, Component.text]

private theorem Component.before_iff {a b : Component} : a.before b = true ↔ a.key < b.key := by
  rw [key, key, Prod.Lex.toLex_lt_toLex]
  cases a <;> cases b <;> simp [before, rank, isName, text]

namespace Path

variable {a b c : Path}

private theorem componentsBefore_iff {first second : List Component} :
    componentsBefore first second = true ↔
      first.map Component.key < second.map Component.key := by
  fun_induction componentsBefore first second with
  | case1 first => simp
  | case2 c second => simp
  | case3 a first b second ih =>
    rw [Bool.or_eq_true, Bool.and_eq_true, beq_iff_eq, ih, Component.before_iff, List.map_cons,
      List.map_cons, List.cons_lt_cons_iff, Component.key_injective.eq_iff]

def Precedes (a b : Path) : Prop :=
  componentsBefore a.components b.components = true

theorem precedes_iff :
    a.Precedes b ↔ a.components.map Component.key < b.components.map Component.key :=
  componentsBefore_iff

theorem same_iff : a.same b = true ↔ a.components = b.components :=
  beq_iff_eq

theorem Precedes.trans (first : a.Precedes b) (second : b.Precedes c) : a.Precedes c :=
  precedes_iff.mpr (lt_trans (precedes_iff.mp first) (precedes_iff.mp second))

theorem Precedes.components_ne (precedes : a.Precedes b) : a.components ≠ b.components := by
  intro same
  have before := precedes_iff.mp precedes
  rw [same] at before
  exact lt_irrefl _ before

theorem le_iff : a.le b = true ↔ ¬ b.Precedes a := by
  simp [le, Precedes]

/-- Of two paths that are not the same one comes before the other. -/
theorem precedes_of_not_same (other : a.components ≠ b.components) (later : ¬ b.Precedes a) :
    a.Precedes b := by
  rw [precedes_iff] at later ⊢
  refine lt_of_le_of_ne (not_lt.mp later) fun equal => other ?_
  exact List.map_injective_iff.mpr Component.key_injective equal

end Path

end PackageSheet
