import PackageSheet.Token.Gap

namespace PackageSheet

def Gap.blockEnd : List Char := ['*', '/']

/-- Trivia is made of blanks, of comments from two slashes up to a line feed, which is not part of
them, and of comments from slash and star to the first star and slash after these two characters. At
the end of a text both kinds of comments may also be ended by it. -/
inductive Trivia (final : Prop) : List Char → Prop where
  | nil : Trivia final []
  | blank {c : Char} {cs : List Char} (blank : Text.isBlank c) (rest : Trivia final cs) :
      Trivia final (c :: cs)
  | lineComment {body cs : List Char} (inside : '\n' ∉ body)
      (ended : cs.head? = some '\n' ∨ final ∧ cs = []) (rest : Trivia final cs) :
      Trivia final ('/' :: '/' :: (body ++ cs))
  | blockComment {body cs : List Char} (inside : ¬ Gap.blockEnd <:+: body)
      (rest : Trivia final cs) : Trivia final ('/' :: '*' :: (body ++ Gap.blockEnd ++ cs))
  | openComment {body : List Char} (last : final) (inside : ¬ Gap.blockEnd <:+: body) :
      Trivia final ('/' :: '*' :: body)

namespace Gap

/-- A text goes on from the middle of a gap as trivia should. -/
def Continues (final : Prop) : Gap → List Char → Prop
  | .blank, cs => Trivia final cs
  | .lineComment, cs => ∃ body rest, cs = body ++ rest ∧ '\n' ∉ body ∧
      (rest.head? = some '\n' ∨ final ∧ rest = []) ∧ Trivia final rest
  | .blockComment, cs =>
      (∃ body rest, cs = body ++ blockEnd ++ rest ∧ ¬ blockEnd <:+: body ∧ Trivia final rest) ∨
        final ∧ ¬ blockEnd <:+: cs

variable {final : Prop} {c : Char} {cs : List Char}

private theorem Continues.line_cons (other : c ≠ '\n') (rest : Continues final .lineComment cs) :
    Continues final .lineComment (c :: cs) := by
  obtain ⟨body, rest, rfl, inside, ended, trivia⟩ := rest
  exact ⟨c :: body, rest, rfl, by simp [inside, other.symm], ended, trivia⟩

private theorem Continues.block_cons (open' : ¬ blockEnd <+: c :: cs)
    (rest : Continues final .blockComment cs) : Continues final .blockComment (c :: cs) := by
  rcases rest with ⟨body, rest, rfl, inside, trivia⟩ | ⟨last, inside⟩
  · refine .inl ⟨c :: body, rest, rfl, ?_, trivia⟩
    rw [List.infix_cons_iff, not_or]
    refine ⟨fun ended => open' (ended.trans ?_), inside⟩
    exact ⟨blockEnd ++ rest, by simp⟩
  · refine .inr ⟨last, ?_⟩
    rw [List.infix_cons_iff, not_or]
    exact ⟨open', inside⟩

/-- What is skipped goes on as trivia should; it is the last gap if nothing follows. -/
theorem continues_split (mode : Gap) (cs : List Char) :
    mode.Continues ((mode.split cs).2 = []) (mode.split cs).1 := by
  fun_induction Gap.split mode cs with
  | case1 mode =>
    cases mode with
    | blank => exact .nil
    | lineComment => exact ⟨[], [], rfl, List.not_mem_nil, .inr ⟨rfl, rfl⟩, .nil⟩
    | blockComment => exact .inr ⟨rfl, by decide⟩
  | case2 cs gap rest found ih =>
    rw [found] at ih
    obtain ⟨body, after, rfl, inside, ended, trivia⟩ := ih
    exact .lineComment inside ended trivia
  | case3 cs gap rest found ih =>
    rw [found] at ih
    rcases ih with ⟨body, after, rfl, inside, trivia⟩ | ⟨last, inside⟩
    · exact .blockComment inside trivia
    · exact .openComment last inside
  | case4 c cs _ _ blank gap rest found ih =>
    rw [found] at ih
    exact .blank blank ih
  | case5 c cs _ _ visible => exact .nil
  | case6 c cs gap rest found ih =>
    rw [found] at ih
    by_cases feed : c = '\n'
    · subst feed
      rw [if_pos rfl] at ih
      exact ⟨[], _, rfl, List.not_mem_nil, .inl rfl, .blank (by decide) ih⟩
    · rw [if_neg feed] at ih
      exact .line_cons feed ih
  | case7 cs gap rest found ih =>
    rw [found] at ih
    exact .inl ⟨[], gap, rfl, by decide, ih⟩
  | case8 c cs other gap rest found ih =>
    rw [found] at ih
    refine ih.block_cons ?_
    rintro ⟨after, ended⟩
    have whole := split_append .blockComment cs
    obtain ⟨rfl, rfl⟩ := List.cons.inj ended
    rw [found] at whole
    exact other (after ++ rest) rfl whole.symm

/-- A gap is trivia. -/
theorem trivia_split (cs : List Char) : Trivia ((blank.split cs).2 = []) (blank.split cs).1 :=
  continues_split .blank cs

/-- What follows a gap does not begin with a blank. -/
theorem not_isBlank_of_split {mode : Gap} {rest : List Char}
    (found : (mode.split cs).2 = c :: rest) : Text.isBlank c = false := by
  fun_induction Gap.split mode cs with
  | case1 => cases found
  | case5 c cs _ _ visible =>
    cases found
    exact Bool.eq_false_iff.mpr visible
  | _ => simp_all

theorem split_of_isBlank (blank : Text.isBlank c = true) :
    Gap.blank.split (c :: cs) = (c :: (Gap.blank.split cs).1, (Gap.blank.split cs).2) := by
  have slash : c ≠ '/' := by
    rintro rfl
    exact absurd blank (by decide)
  rw [Gap.split.eq_def]
  split <;> simp_all

private theorem split_lineComment {body : List Char} (inside : '\n' ∉ body) :
    Gap.lineComment.split (body ++ '\n' :: cs) =
      (body ++ (Gap.blank.split ('\n' :: cs)).1, (Gap.blank.split ('\n' :: cs)).2) := by
  induction body with
  | nil =>
    rw [split_of_isBlank (by decide)]
    rfl
  | cons d body ih =>
    obtain ⟨other, inside⟩ := List.ne_and_not_mem_of_not_mem_cons inside
    have onward : Gap.lineComment.split (d :: (body ++ '\n' :: cs)) =
        (d :: (Gap.lineComment.split (body ++ '\n' :: cs)).1,
          (Gap.lineComment.split (body ++ '\n' :: cs)).2) := by
      rw [Gap.split.eq_def]
      simp [Ne.symm other]
    rw [List.cons_append, onward, ih inside]
    rfl

private theorem split_blockComment {body : List Char} (inside : ¬ blockEnd <:+: body) :
    Gap.blockComment.split (body ++ blockEnd ++ cs) =
      (body ++ blockEnd ++ (Gap.blank.split cs).1, (Gap.blank.split cs).2) := by
  induction body with
  | nil => rfl
  | cons d body ih =>
    rw [List.infix_cons_iff, not_or] at inside
    obtain ⟨first, inside⟩ := inside
    have onward : Gap.blockComment.split (d :: (body ++ blockEnd ++ cs)) =
        (d :: (Gap.blockComment.split (body ++ blockEnd ++ cs)).1,
          (Gap.blockComment.split (body ++ blockEnd ++ cs)).2) := by
      rw [Gap.split.eq_def]
      split
      · simp_all
      · simp_all
      · simp_all
      · simp_all
      · simp_all
      · rename_i same
        obtain ⟨rfl, next⟩ := List.cons.inj same
        cases body with
        | nil => exact absurd (List.cons.inj next).1 (by decide)
        | cons d body =>
          obtain ⟨rfl, -⟩ := List.cons.inj next
          exact absurd ⟨body, rfl⟩ first
      · simp_all
    rw [List.cons_append, List.cons_append, onward, ih inside]
    rfl

end Gap

/-- Trivia that leaves no comment open is skipped whatever follows it. -/
theorem Trivia.split_append {gap : List Char} (trivia : Trivia False gap) (cs : List Char) :
    Gap.blank.split (gap ++ cs) = (gap ++ (Gap.blank.split cs).1, (Gap.blank.split cs).2) := by
  induction trivia with
  | nil => rfl
  | blank blank rest ih =>
    rw [List.cons_append, Gap.split_of_isBlank blank, ih]
    rfl
  | @lineComment body after inside ended rest ih =>
    obtain ⟨more, rfl⟩ := List.head?_eq_some_iff.mp (ended.resolve_right fun last => last.1)
    have comment := @Gap.split_lineComment (more ++ cs) body inside
    rw [← List.cons_append, ih] at comment
    calc Gap.blank.split (('/' :: '/' :: (body ++ '\n' :: more)) ++ cs)
      _ = Gap.blank.split ('/' :: '/' :: (body ++ '\n' :: (more ++ cs))) := by simp
      _ = ('/' :: '/' :: (Gap.lineComment.split (body ++ '\n' :: (more ++ cs))).1,
          (Gap.lineComment.split (body ++ '\n' :: (more ++ cs))).2) := rfl
      _ = _ := by rw [← List.cons_append, comment]; simp
  | @blockComment body after inside rest ih =>
    have comment := @Gap.split_blockComment (after ++ cs) body inside
    rw [ih] at comment
    calc Gap.blank.split (('/' :: '*' :: (body ++ Gap.blockEnd ++ after)) ++ cs)
      _ = Gap.blank.split ('/' :: '*' :: (body ++ Gap.blockEnd ++ (after ++ cs))) := by simp
      _ = ('/' :: '*' :: (Gap.blockComment.split (body ++ Gap.blockEnd ++ (after ++ cs))).1,
          (Gap.blockComment.split (body ++ Gap.blockEnd ++ (after ++ cs))).2) := rfl
      _ = _ := by rw [comment]; simp
  | openComment last => exact last.elim

end PackageSheet
