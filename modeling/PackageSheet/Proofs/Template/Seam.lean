import PackageSheet.Proofs.Template.Warning

/-!
Where a text that was expanded without a report can still show a reference. Such a text is put together
from pieces: the runs of characters between the references of the text and of the values that these stand
for (`Expands.exists_pieces`). No piece shows a reference (`Pieces.not_showsReference`), so one in the
whole is glued together at a seam (`showsReference_flatten_iff`). There is none where every dollar sign
outside of references stands before a character other than an opening brace (`not_glued_of_sealed`).
-/

namespace PackageSheet

namespace Template

/-- A text shows a reference if a closing brace comes somewhere behind an opening. -/
def ShowsReference (cs : List Char) : Prop :=
  ∃ before after, cs = before ++ opening ++ after ∧ '\x7d' ∈ after

/-- Pieces that are put one behind another can show a reference that none of them shows: what a piece
opens is closed behind it, or the dollar sign at its end opens what stands there. -/
inductive Glued : List (List Char) → Prop where
  | closed {piece : List Char} {pieces : List (List Char)} (opened : opening <:+: piece)
      (closing : '\x7d' ∈ pieces.flatten) : Glued (piece :: pieces)
  | opened {piece after : List Char} {pieces : List (List Char)} (dollar : ['$'] <:+ piece)
      (brace : pieces.flatten = '\x7b' :: after) (closing : '\x7d' ∈ after) :
      Glued (piece :: pieces)
  | later {piece : List Char} {pieces : List (List Char)} (rest : Glued pieces) :
      Glued (piece :: pieces)

/-- Outside of references, every dollar sign stands before a character other than an opening brace. -/
def Sealed (texts : List Part) : Prop :=
  ∀ front back, texts = front ++ .char '$' :: back →
    ∃ c rest, back = .char c :: rest ∧ c ≠ '\x7b'

variable {cs front back run body : List Char} {c : Char} {texts : List Part}
  {pieces : List (List Char)}

theorem sealed_of_not_mem (bare : .char '$' ∉ texts) : Sealed texts := by
  rintro front back rfl
  exact absurd (List.mem_append_right front List.mem_cons_self) bare

theorem not_showsReference_nil : ¬ ShowsReference [] := by
  rintro ⟨before, after, whole, -⟩
  simp [opening] at whole

/-- One text behind another shows the references of both, and those at the seam. -/
theorem showsReference_append_iff : ShowsReference (front ++ back) ↔
    ShowsReference front ∨ ShowsReference back ∨
      (opening <:+: front ∧ '\x7d' ∈ back) ∨
      ∃ after, ['$'] <:+ front ∧ back = '\x7b' :: after ∧ '\x7d' ∈ after := by
  constructor
  · rintro ⟨before, after, whole, closing⟩
    rw [List.append_assoc, List.append_eq_append_iff] at whole
    rcases whole with ⟨gap, rfl, rfl⟩ | ⟨gap, rfl, split⟩
    · exact .inr (.inl ⟨gap, after, (List.append_assoc ..).symm, closing⟩)
    · rcases gap with _ | ⟨first, _ | ⟨second, gap⟩⟩
      · exact .inr (.inl ⟨[], after, split.symm, closing⟩)
      · obtain ⟨rfl, rest⟩ := List.cons.inj split
        exact .inr (.inr (.inr ⟨after, List.suffix_append _ _, rest.symm, closing⟩))
      · obtain ⟨rfl, rest⟩ := List.cons.inj split
        obtain ⟨rfl, rfl⟩ := List.cons.inj rest
        have form : before ++ '$' :: '\x7b' :: gap = before ++ opening ++ gap := by simp [opening]
        rcases List.mem_append.mp closing with inside | behind
        · exact .inl ⟨before, gap, form, inside⟩
        · exact .inr (.inr (.inl ⟨⟨before, gap, form.symm⟩, behind⟩))
  · rintro (⟨before, after, rfl, closing⟩ | ⟨before, after, rfl, closing⟩ |
      ⟨⟨before, after, rfl⟩, closing⟩ | ⟨after, ⟨before, rfl⟩, rfl, closing⟩)
    · exact ⟨before, after ++ back, by simp, List.mem_append_left _ closing⟩
    · exact ⟨front ++ before, after, by simp, closing⟩
    · exact ⟨before, after ++ back, by simp, List.mem_append_right _ closing⟩
    · exact ⟨before, after, by simp [opening], closing⟩

/-- Pieces that show no reference show one together exactly if they are glued. -/
theorem showsReference_flatten_iff (free : ∀ piece ∈ pieces, ¬ ShowsReference piece) :
    ShowsReference pieces.flatten ↔ Glued pieces := by
  induction pieces with
  | nil => exact ⟨fun shown => absurd shown not_showsReference_nil, nofun⟩
  | cons piece pieces ih =>
    obtain ⟨own, others⟩ := List.forall_mem_cons.mp free
    rw [List.flatten_cons, showsReference_append_iff, ih others]
    constructor
    · rintro (shown | rest | ⟨opened, closing⟩ | ⟨after, dollar, brace, closing⟩)
      · exact absurd shown own
      · exact .later rest
      · exact .closed opened closing
      · exact .opened dollar brace closing
    · rintro (⟨opened, closing⟩ | ⟨dollar, brace, closing⟩ | rest)
      · exact .inr (.inr (.inl ⟨opened, closing⟩))
      · exact .inr (.inr (.inr ⟨_, dollar, brace, closing⟩))
      · exact .inr (.inl rest)

private theorem parts_eq_cons {part : Part} (divided : parts cs = part :: texts) :
    ∃ after, cs = part.text ++ after ∧ texts = parts after ∧
      (part = .char '$' → ∀ more, after = '\x7b' :: more → '\x7d' ∉ more) := by
  unfold parts at divided
  split at divided
  · cases divided
  · rename_i rest
    split at divided
    · rename_i body after closed
      cases divided
      refine ⟨after, ?_, rfl, fun reference => by cases reference⟩
      simp [Part.text, ← append_of_close? closed]
    · -- a dollar sign is a part of its own only where it opens nothing that is closed
      rename_i missing
      cases divided
      refine ⟨'\x7b' :: rest, rfl, rfl, fun _ more same => ?_⟩
      cases same
      exact not_mem_of_close?_eq_none missing
  · rename_i c rest other
    cases divided
    refine ⟨rest, rfl, rfl, fun dollar more same => ?_⟩
    cases dollar
    exact absurd same (other more rfl)

end Template

namespace Scope

open Template

variable {scope : Scope} {active : List (List Char)} {texts : List Part} {expansion : Expansion}
  {chains : List (List (List Char))} {pieces : List (List Char)} {run : List Char}

/-- The pieces of an expanded text, in order: the characters before its first reference, the pieces of
what the reference stands for, and those of the text behind it. -/
inductive Pieces (scope : Scope) : List Part → List (List Char) → Prop where
  | nil : Pieces scope [] [[]]
  | char {c : Char} {texts : List Part} {run : List Char} {pieces : List (List Char)}
      (rest : Pieces scope texts (run :: pieces)) :
      Pieces scope (.char c :: texts) ((c :: run) :: pieces)
  | reference {body : List Char} {value : String} {texts : List Part}
      {inner outer : List (List Char)} (found : scope.resolve? body = some value)
      (within : Pieces scope (parts value.toList) inner) (rest : Pieces scope texts outer) :
      Pieces scope (.reference body :: texts) ([] :: (inner ++ outer))

theorem Pieces.exists_cons (pieced : scope.Pieces texts pieces) :
    ∃ run more, pieces = run :: more ∧ run <+: texts.flatMap Part.text := by
  induction pieced with
  | nil => exact ⟨[], [], rfl, List.prefix_refl _⟩
  | char rest ih =>
    obtain ⟨_, _, same, ahead⟩ := ih
    cases same
    exact ⟨_, _, rfl, List.cons_prefix_cons.mpr ⟨rfl, ahead⟩⟩
  | reference => exact ⟨[], _, rfl, List.nil_prefix⟩

/-- A text that is expanded without a report is put together from its pieces. -/
theorem Expands.exists_pieces (derivation : Expands scope active texts expansion chains)
    (silent : expansion.problems = []) :
    ∃ pieces, scope.Pieces texts pieces ∧ expansion.text = pieces.flatten := by
  induction derivation with
  | nil => exact ⟨[[]], .nil, rfl⟩
  | char rest ih =>
    obtain ⟨pieces, pieced, whole⟩ := ih silent
    obtain ⟨run, more, rfl, -⟩ := pieced.exists_cons
    exact ⟨_, .char pieced, congrArg (_ :: ·) whole⟩
  | active | unresolved => cases silent
  | resolved new found within rest inside after =>
    obtain ⟨inner, outer⟩ := List.append_eq_nil_iff.mp silent
    obtain ⟨first, pieced, whole⟩ := inside inner
    obtain ⟨second, others, behind⟩ := after outer
    refine ⟨_, .reference found pieced others, ?_⟩
    simp [Expansion.append, whole, behind]

/-- No piece of a text shows a reference: an opening that is closed in it would have been one. -/
theorem Pieces.not_showsReference (pieced : scope.Pieces texts pieces) {cs : List Char}
    (divided : parts cs = texts) : ∀ piece ∈ pieces, ¬ ShowsReference piece := by
  induction pieced generalizing cs with
  | nil =>
    rw [List.forall_mem_singleton]
    exact not_showsReference_nil
  | @char c texts run pieces rest ih =>
    obtain ⟨after, -, rfl, bare⟩ := parts_eq_cons divided
    obtain ⟨own, others⟩ := List.forall_mem_cons.mp (ih rfl)
    obtain ⟨_, _, same, ahead⟩ := rest.exists_cons
    cases same
    rw [text_parts] at ahead
    obtain ⟨behind, rfl⟩ := ahead
    refine List.forall_mem_cons.mpr ⟨?_, others⟩
    rw [← List.singleton_append, showsReference_append_iff]
    rintro (single | shown | ⟨opened, -⟩ | ⟨more, dollar, rfl, closing⟩)
    · obtain ⟨before, more, whole, -⟩ := single
      have lengths := congrArg List.length whole
      simp [opening] at lengths
      omega
    · exact own shown
    · have lengths := opened.length_le
      simp [opening] at lengths
    · cases dollar.eq_of_length rfl
      exact bare rfl _ rfl (List.mem_append_left _ closing)
  | reference found within rest inside after =>
    obtain ⟨behind, -, rfl, -⟩ := parts_eq_cons divided
    refine List.forall_mem_cons.mpr ⟨not_showsReference_nil, ?_⟩
    exact List.forall_mem_append.mpr ⟨inside rfl, after rfl⟩

/-- Pieces of sealed texts open nothing, and none of them ends in a dollar sign. -/
theorem Pieces.not_opening (pieced : scope.Pieces texts pieces) (sealed : Sealed texts)
    (values : ∀ body, .reference body ∈ texts → ∀ name value,
      Relation.ReflTransGen scope.Refers (Text.trim body) name →
        scope.resolve? name = some value → Sealed (parts value.toList)) :
    ∀ piece ∈ pieces, ¬ opening <:+: piece ∧ ¬ ['$'] <:+ piece := by
  have blank : ¬ opening <:+: [] ∧ ¬ ['$'] <:+ [] := by simp [opening]
  induction pieced with
  | nil =>
    rw [List.forall_mem_singleton]
    exact blank
  | @char c texts run pieces rest ih =>
    have later := ih (fun front back split => sealed (.char c :: front) back (by simp [split]))
      fun body member => values body (.tail _ member)
    obtain ⟨⟨opens, ends⟩, others⟩ := List.forall_mem_cons.mp later
    refine List.forall_mem_cons.mpr ⟨?_, others⟩
    -- behind a dollar sign the run goes on with another character
    have next : c = '$' → ∃ d more, run = d :: more ∧ d ≠ '\x7b' := by
      rintro rfl
      obtain ⟨d, more, rfl, other⟩ := sealed [] texts rfl
      cases rest
      exact ⟨d, _, rfl, other⟩
    constructor
    · rw [List.infix_cons_iff]
      rintro (⟨more, whole⟩ | inside)
      · obtain ⟨rfl, behind⟩ := List.cons.inj whole
        obtain ⟨d, _, rfl, other⟩ := next rfl
        exact other (List.cons.inj behind).1.symm
      · exact opens inside
    · rw [List.suffix_cons_iff]
      rintro (whole | inside)
      · obtain ⟨rfl, behind⟩ := List.cons.inj whole
        obtain ⟨d, _, rfl, -⟩ := next rfl
        cases behind
      · exact ends inside
  | @reference body value texts inner outer found within rest inside after =>
    rw [← resolve?_trim] at found
    have first := inside (values body List.mem_cons_self _ value .refl found)
      fun other member name own path =>
        values body List.mem_cons_self name own (path.head (refers_of_mem_parts found member))
    have second := after
      (fun front back split => sealed (.reference body :: front) back (by simp [split]))
      fun other member => values other (.tail _ member)
    exact List.forall_mem_cons.mpr ⟨blank, List.forall_mem_append.mpr ⟨first, second⟩⟩

/-- So they are not glued. -/
theorem not_glued_of_sealed
    (pieced : ∀ piece ∈ pieces, ¬ opening <:+: piece ∧ ¬ ['$'] <:+ piece) : ¬ Glued pieces := by
  intro glued
  induction glued with
  | closed opened => exact (pieced _ List.mem_cons_self).1 opened
  | opened dollar => exact (pieced _ List.mem_cons_self).2 dollar
  | later rest ih => exact ih fun piece member => pieced piece (.tail _ member)

end Scope

end PackageSheet
