import Mathlib.Data.List.Infix
import PackageSheet.Proofs.Template.Seam

namespace PackageSheet

namespace Template

/-- Every opening in a text is closed in it. -/
def ClosesOpenings (cs : List Char) : Prop :=
  ∀ before after, cs = before ++ opening ++ after → '\x7d' ∈ after

/-- An opening stands across the seam of two texts. -/
def Straddles (first second : List Char) : Prop :=
  ['$'] <:+ first ∧ ['\x7b'] <+: second

/-- The references of a text, in order. The first one begins at the leftmost opening and ends at the first
closing brace after it; the others are those of the text behind it. -/
inductive References : List Char → List (List Char) → Prop where
  | none {cs : List Char} (free : ¬ ShowsReference cs) : References cs []
  | cons {before body after : List Char} {bodies : List (List Char)}
      (leftmost : ¬ opening <:+: before) (closing : '\x7d' ∉ body) (rest : References after bodies) :
      References (before ++ opening ++ body ++ '\x7d' :: after) (body :: bodies)

variable {cs first second : List Char} {c : Char} {bodies : List (List Char)}

private theorem closesOpenings_iff :
    ClosesOpenings cs ↔ ∀ rest ∈ cs.tails, opening <+: rest → '\x7d' ∈ rest := by
  constructor
  · rintro closed rest member ⟨after, rfl⟩
    obtain ⟨before, rfl⟩ := (List.mem_tails _ _).mp member
    exact List.mem_append_right _ (closed before after (by simp))
  · rintro closed before after rfl
    have member : opening ++ after ∈ (before ++ opening ++ after).tails :=
      (List.mem_tails _ _).mpr ⟨before, by simp⟩
    exact (List.mem_append.mp (closed _ member (List.prefix_append _ _))).resolve_left (by decide)

instance (cs : List Char) : Decidable (ClosesOpenings cs) :=
  decidable_of_iff _ closesOpenings_iff.symm

instance (first second : List Char) : Decidable (Straddles first second) :=
  inferInstanceAs (Decidable (_ ∧ _))

private theorem ClosesOpenings.of_append (closed : ClosesOpenings (first ++ second)) :
    ClosesOpenings second := by
  rintro before after rfl
  exact closed (first ++ before) after (by simp)

/-- Texts are divided one behind the other, unless an opening is left open or stands across the seam. -/
theorem parts_append_of_closesOpenings (closed : ClosesOpenings first) (apart : ¬ Straddles first second) :
    parts (first ++ second) = parts first ++ parts second := by
  fun_induction parts first with
  | case1 => rfl
  | case2 cs body rest found ih =>
    have whole := append_of_close? found
    have later : ClosesOpenings rest := by
      refine @ClosesOpenings.of_append ('$' :: '\x7b' :: (body ++ ['\x7d'])) rest ?_
      simpa [whole] using closed
    have still : ¬ Straddles rest second := by
      rintro ⟨dollar, brace⟩
      exact apart ⟨dollar.trans ⟨'$' :: '\x7b' :: (body ++ ['\x7d']), by simp [whole]⟩, brace⟩
    have both := @parts_append [] body (rest ++ second) (by decide) (not_mem_of_close? found)
    rw [← whole]
    simpa [opening, ih later still] using both
  | case3 cs missing ih =>
    exact absurd (closed [] cs rfl) (not_mem_of_close?_eq_none missing)
  | case4 c cs other ih =>
    have later : ClosesOpenings cs := @ClosesOpenings.of_append [c] cs closed
    have still : ¬ Straddles cs second := by
      rintro ⟨dollar, brace⟩
      exact apart ⟨dollar.trans (List.suffix_cons c cs), brace⟩
    rw [List.cons_append, parts, ih later still, List.cons_append]
    rintro more rfl next
    cases cs with
    | nil => exact apart ⟨List.suffix_refl _, more, next.symm⟩
    | cons d cs =>
      obtain ⟨rfl, -⟩ := List.cons.inj next
      exact other cs rfl rfl

private theorem References.cons_char (outside : ∀ more, c :: cs = opening ++ more → '\x7d' ∉ more)
    (references : References cs bodies) : References (c :: cs) bodies := by
  cases references with
  | none free =>
    refine .none ?_
    rintro ⟨before, after, whole, closing⟩
    cases before with
    | nil => exact outside after whole closing
    | cons d before => exact free ⟨before, after, (List.cons.inj whole).2, closing⟩
  | @cons before body after bodies leftmost closing rest =>
    refine @References.cons (c :: before) _ _ _ ?_ closing rest
    rw [List.infix_cons_iff]
    rintro (⟨more, opened⟩ | inside)
    · refine outside (more ++ opening ++ body ++ '\x7d' :: after) ?_ (by simp)
      have longer := congrArg (· ++ (opening ++ body ++ '\x7d' :: after)) opened.symm
      simpa using longer
    · exact leftmost inside

/-- The references of a text are those that it is divided into. -/
theorem references_iff : References cs bodies ↔ (parts cs).filterMap Part.body? = bodies := by
  constructor
  · intro references
    induction references with
    | @none cs free =>
      refine List.filterMap_eq_nil_iff.mpr fun part member => ?_
      cases part with
      | char c => rfl
      | reference body =>
        obtain ⟨front, back, split⟩ := List.append_of_mem member
        have whole := text_parts cs
        rw [split] at whole
        exact absurd ⟨front.flatMap Part.text, body ++ '\x7d' :: back.flatMap Part.text,
          by simp [← whole, Part.text, opening], by simp⟩ free
    | cons leftmost closing rest ih =>
      rw [parts_append leftmost closing]
      simp [ih, Part.body?, List.filterMap_append, List.filterMap_map, Function.comp_def]
  · rintro rfl
    fun_induction parts cs with
    | case1 => exact .none not_showsReference_nil
    | case2 cs body rest found ih =>
      have references := @References.cons [] body rest _ (by decide) (not_mem_of_close? found) ih
      rw [← append_of_close? found]
      exact references
    | case3 cs missing ih =>
      refine .cons_char ?_ ih
      rintro more whole
      have same : cs = more := (List.cons.inj (List.cons.inj whole).2).2
      exact same ▸ not_mem_of_close?_eq_none missing
    | case4 c cs other ih =>
      refine .cons_char ?_ ih
      rintro more whole
      obtain ⟨rfl, rfl⟩ := List.cons.inj whole
      exact absurd rfl (other more rfl)

end Template

private theorem Expansion.append_assoc (first second third : Expansion) :
    (first.append second).append third = first.append (second.append third) := by
  simp [append, List.append_assoc]

namespace Scope

open Template

variable {scope : Scope} {active : List (List Char)} {texts others : List Part}

private theorem expandParts_append : scope.expandParts active (texts ++ others) =
    (scope.expandParts active texts).append (scope.expandParts active others) := by
  induction texts with
  | nil =>
    rw [expandParts_nil]
    rfl
  | cons part texts ih =>
    cases part with
    | char c => rw [List.cons_append, expandParts_char, expandParts_char, ih, Expansion.append_assoc]
    -- what is active within a reference is so no longer when the next part comes
    | reference body =>
      rw [List.cons_append]
      by_cases met : Text.trim body ∈ active
      · rw [expandParts_active met, expandParts_active met, ih, Expansion.append_assoc]
      · cases found : scope.resolve? body with
        | none =>
          rw [expandParts_unresolved met found, expandParts_unresolved met found, ih,
            Expansion.append_assoc]
        | some value =>
          rw [expandParts_resolved met found, expandParts_resolved met found, ih,
            Expansion.append_assoc]

/-- Texts are expanded one behind the other, unless an opening is left open or stands across the seam. -/
theorem expand_append {first second : String} (closed : ClosesOpenings first.toList)
    (apart : ¬ Straddles first.toList second.toList) :
    scope.expand (first ++ second) = (scope.expand first).append (scope.expand second) := by
  unfold expand
  rw [String.toList_append, parts_append_of_closesOpenings closed apart, expandParts_append]

def unresolved (body : List Char) : Problem :=
  .unresolvedReference (String.ofList (Text.trim body))

/-- References without values stay as they are written, with one report for each. -/
theorem expandParts_of_unresolved
    (missing : ∀ body ∈ texts.filterMap Part.body?, scope.resolve? body = none) :
    scope.expandParts [] texts =
      ⟨texts.flatMap Part.text, (texts.filterMap Part.body?).map unresolved⟩ := by
  induction texts with
  | nil => exact expandParts_nil
  | cons part texts ih =>
    cases part with
    | char c =>
      rw [expandParts_char, ih missing]
      rfl
    | reference body =>
      obtain ⟨own, others⟩ := List.forall_mem_cons.mp missing
      rw [expandParts_unresolved List.not_mem_nil own, ih others]
      rfl

end Scope

end PackageSheet
