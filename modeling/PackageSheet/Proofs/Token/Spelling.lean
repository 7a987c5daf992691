import PackageSheet.Proofs.Text.Letter
import PackageSheet.Proofs.Text.Trim
import PackageSheet.Proofs.Token.Lexing

/-!
Texts that spell certain tokens, wherever they stand (`Spells`). Each lemma says how one token is
spelled in front of a text, so the tokens of a text that was put together are read off its pieces. A
piece ends where it should: an identifier in front of a character that cannot continue it
(`Spells.name`), a literal with doubled quotes in front of anything but a quote (`Spells.literal`),
and a parameter, in which brackets are balanced, at its closing bracket (`Spells.parameter`).
-/

namespace PackageSheet

def Token.content (token : Token) : TokenKind × String :=
  (token.kind, token.text)

/-- The characters of an identifier of sheets. -/
def IsName : List Char → Prop
  | [] => False
  | c :: cs => Dialect.hyphenated.isStart c = true ∧ cs.all Dialect.hyphenated.isPart = true

instance : DecidablePred IsName
  | [] => inferInstanceAs (Decidable False)
  | _ :: _ => inferInstanceAs (Decidable (_ ∧ _))

/-- A text does not go on with an identifier that ends in front of it. -/
def Stops (cs : List Char) : Prop :=
  ∀ d ∈ cs.head?, Dialect.hyphenated.isPart d = false

theorem stops_cons {c : Char} {cs : List Char} (other : Dialect.hyphenated.isPart c = false) :
    Stops (c :: cs) := by
  simpa [Stops] using other

/-- A text in which brackets are balanced. -/
inductive Balanced : List Char → Prop where
  | nil : Balanced []
  | other {c : Char} {cs : List Char} (plain : c ≠ '[' ∧ c ≠ ']') (rest : Balanced cs) :
      Balanced (c :: cs)
  | nested {inner cs : List Char} (inside : Balanced inner) (rest : Balanced cs) :
      Balanced ('[' :: (inner ++ ']' :: cs))

def doubled (cs : List Char) : List Char :=
  cs.flatMap fun c => if c = '\x22' then ['\x22', '\x22'] else [c]

namespace Lexeme

variable {dialect : Dialect} {c : Char} {cs body rest : List Char} {kind : TokenKind}

private theorem prepend_prepend (text spelling others more : List Char) (lexeme : Lexeme) :
    (lexeme.prepend text spelling).prepend others more =
      lexeme.prepend (others ++ text) (more ++ spelling) := by
  simp [prepend]

theorem run_append_of {p : Char → Bool} (all : ∀ d ∈ body, p d = true)
    (stop : ∀ d ∈ rest.head?, p d = false) :
    run kind p (body ++ rest) = ⟨kind, body, body, rest⟩ := by
  have ends : rest.takeWhile p = [] ∧ rest.dropWhile p = rest := by
    cases rest with
    | nil => simp
    | cons d rest => simp [stop d rfl]
  simp [run, List.takeWhile_append_of_pos all, List.dropWhile_append_of_pos all, ends]

/-- Doubled quotes are read back as single ones, and the quote behind them ends the literal. -/
theorem atQuoted_doubled (stop : rest.head? ≠ some '\x22') :
    atQuoted (doubled body ++ '\x22' :: rest) =
      ⟨.atStringLiteral, body, doubled body ++ ['\x22'], rest⟩ := by
  induction body with
  | nil =>
    rw [doubled, List.flatMap_nil, List.nil_append, atQuoted]
    · rfl
    · rintro cs rfl
      exact stop rfl
  | cons c body ih =>
    by_cases quote : c = '\x22'
    · have split : doubled (c :: body) = '\x22' :: '\x22' :: doubled body := by
        simp [doubled, quote]
      rw [split, List.cons_append, List.cons_append, atQuoted, ih, quote]
      rfl
    · have split : doubled (c :: body) = c :: doubled body := by
        simp [doubled, quote]
      rw [split, List.cons_append, atQuoted.eq_def]
      split <;> simp_all [prepend]

theorem bracketed_balanced (balanced : Balanced body) (depth : Nat) :
    bracketed depth (body ++ rest) = (bracketed depth rest).prepend body body := by
  induction balanced generalizing depth rest with
  | nil => rfl
  | @other c cs plain after ih =>
    have own : bracketed depth (c :: (cs ++ rest)) =
        (bracketed depth (cs ++ rest)).prepend [c] [c] := by
      rw [bracketed.eq_def]
      split <;> simp_all
    rw [List.cons_append, own, ih, prepend_prepend]
    rfl
  | @nested inner cs inside after innerIh ih =>
    have closing : bracketed (depth + 1) (']' :: (cs ++ rest)) =
        (bracketed depth (cs ++ rest)).prepend [']'] [']'] := rfl
    calc bracketed depth (('[' :: (inner ++ ']' :: cs)) ++ rest)
      _ = bracketed depth ('[' :: (inner ++ ']' :: (cs ++ rest))) := by simp
      _ = (bracketed (depth + 1) (inner ++ ']' :: (cs ++ rest))).prepend ['['] ['['] := by
        cases depth <;> rfl
      _ = _ := by
        rw [innerIh, closing, ih]
        simp [prepend_prepend]

theorem read_single (single : single? c = some kind) :
    read dialect c cs = ⟨kind, [c], [c], cs⟩ := by
  have others : c ≠ '\x22' ∧ c ≠ '\x27' ∧ c ≠ '@' ∧ c ≠ '[' := by
    refine ⟨?_, ?_, ?_, ?_⟩ <;> · rintro rfl; cases single
  simp [read, others, single]

theorem read_of_isStart (start : dialect.isStart c = true) :
    read dialect c cs = (run .identifier dialect.isPart cs).prepend [c] [c] := by
  have others : c ≠ '\x22' ∧ c ≠ '\x27' ∧ c ≠ '@' ∧ c ≠ '[' :=
    ⟨ne_of_isStart start rfl, ne_of_isStart start rfl, ne_of_isStart start rfl,
      ne_of_isStart start rfl⟩
  simp [read, single?_of_isStart start, start, others]

end Lexeme

/-- Wherever a text stands, its tokens say certain things. -/
def Spells (cs : List Char) (contents : List (TokenKind × String)) : Prop :=
  ∀ before tokens, Lexed .hyphenated before cs tokens → tokens.map Token.content = contents

namespace Spells

variable {c : Char} {cs spelling body rest : List Char} {kind : TokenKind} {text : List Char}
  {contents : List (TokenKind × String)}

theorem nil : Spells [] [] := by
  rintro before _ (skipped | skipped)
  · rfl
  · cases skipped

theorem blank (blank : Text.isBlank c = true) (after : Spells cs contents) :
    Spells (c :: cs) contents := by
  have skips := @Gap.split_of_isBlank c cs blank
  intro before tokens lexed
  refine after (before ++ [c]) tokens ?_
  cases lexed with
  | done skipped =>
    obtain ⟨-, none⟩ := Prod.mk.inj (skips.symm.trans skipped)
    exact .done (Prod.ext rfl none)
  | @token _ _ gap more d token tokens skipped read lexed =>
    obtain ⟨rfl, some⟩ := Prod.mk.inj (skips.symm.trans skipped)
    have whole : before ++ c :: (Gap.blank.split cs).1 =
        before ++ [c] ++ (Gap.blank.split cs).1 := by simp
    rw [whole] at read lexed
    exact .token (Prod.ext rfl some) read lexed

/-- What begins with neither a blank nor a slash begins with the token that is read there. -/
theorem token (visible : Text.isBlank c = false) (slash : c ≠ '/')
    (read : Lexeme.read .hyphenated c cs = ⟨kind, text, spelling, rest⟩)
    (after : Spells rest contents) :
    Spells (c :: cs) ((kind, String.ofList text) :: contents) := by
  have skips : Gap.blank.split (c :: cs) = ([], c :: cs) := by
    rw [Gap.split.eq_def]
    split <;> simp_all
  intro before tokens lexed
  obtain ⟨first, others, rfl, own, lexed⟩ := lexed.exists_cons skips
  rw [read] at lexed
  rw [List.map_cons, after _ _ lexed, Token.content, own.kind, own.text, read]

theorem single (single : Lexeme.single? c = some kind) (after : Spells rest contents) :
    Spells (c :: rest) ((kind, String.ofList [c]) :: contents) := by
  refine .token ?_ ?_ (Lexeme.read_single single) after
  · unfold Lexeme.single? at single
    split at single <;> first | rfl | cases single
  · rintro rfl
    cases single

theorem star (after : Spells rest contents) :
    Spells ('*' :: rest) ((.symbol, "*") :: contents) :=
  .token (by decide) (by decide) rfl after

/-- An identifier in front of a character that cannot continue it. -/
theorem name (named : IsName body) (stop : Stops rest) (after : Spells rest contents) :
    Spells (body ++ rest) ((.identifier, String.ofList body) :: contents) := by
  cases body with
  | nil => exact named.elim
  | cons c cs =>
    obtain ⟨start, parts⟩ := named
    have read := @Lexeme.read_of_isStart .hyphenated c (cs ++ rest) start
    rw [Lexeme.run_append_of (List.all_eq_true.mp parts) stop] at read
    exact .token (isBlank_of_isStart start) (ne_of_isStart start rfl) read after

/-- A directive in front of a character that cannot continue its name. -/
theorem directive (named : IsName body) (stop : Stops rest) (after : Spells rest contents) :
    Spells ('@' :: (body ++ rest)) ((.directive, String.ofList body) :: contents) := by
  cases body with
  | nil => exact named.elim
  | cons c cs =>
    obtain ⟨start, parts⟩ := named
    have parts : ∀ d ∈ c :: cs, Dialect.hyphenated.isPart d = true :=
      List.forall_mem_cons.mpr ⟨isPart_of_isStart start, List.all_eq_true.mp parts⟩
    have more : Lexeme.afterAt .hyphenated (c :: cs ++ rest) =
        ⟨.directive, c :: cs, c :: cs, rest⟩ := by
      rw [← Lexeme.run_append_of parts stop, List.cons_append, Lexeme.afterAt]
      · simp [start]
      · exact ne_of_isStart start rfl
    have read : Lexeme.read .hyphenated '@' (c :: cs ++ rest) =
        (Lexeme.afterAt .hyphenated (c :: cs ++ rest)).prepend [] ['@'] := rfl
    rw [more] at read
    exact .token (by decide) (by decide) read after

/-- A literal, in which quotes are doubled, in front of anything but a quote. -/
theorem literal (stop : rest.head? ≠ some '\x22') (after : Spells rest contents) :
    Spells ('@' :: '\x22' :: (doubled body ++ '\x22' :: rest))
      ((.atStringLiteral, String.ofList body) :: contents) := by
  have read : Lexeme.read .hyphenated '@' ('\x22' :: (doubled body ++ '\x22' :: rest)) =
      (Lexeme.atQuoted (doubled body ++ '\x22' :: rest)).prepend [] ['@', '\x22'] := rfl
  rw [Lexeme.atQuoted_doubled stop] at read
  exact .token (by decide) (by decide) read after

/-- A parameter with balanced brackets and no blanks at its ends. -/
theorem parameter (balanced : Balanced body) (bare : Text.Bare body)
    (after : Spells rest contents) :
    Spells ('[' :: (body ++ ']' :: rest))
      ((.selectorParameter, String.ofList body) :: contents) := by
  have bracketed : Lexeme.bracketed 0 (body ++ ']' :: rest) =
      ⟨.selectorParameter, body, body ++ [']'], rest⟩ := by
    rw [Lexeme.bracketed_balanced balanced]
    simp [Lexeme.bracketed, Lexeme.prepend]
  have read : Lexeme.read .hyphenated '[' (body ++ ']' :: rest) =
      ⟨.selectorParameter, body, '[' :: (body ++ [']']), rest⟩ := by
    simp [Lexeme.read, bracketed, Lexeme.prepend, Text.trim_of_bare bare]
  exact .token (by decide) (by decide) read after

end Spells

end PackageSheet
