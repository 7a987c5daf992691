import Mathlib.Data.List.Forall2
import PackageSheet.Proofs.Sheet.Source
import PackageSheet.Proofs.Token.Spelling

/-!
The tokens of one text behind another. A text is closed if each of its tokens ends before it does, or is
a character by itself, as a semicolon or a brace is, and no comment is left open at its end. Such a text
takes nothing of what follows: its tokens are the first ones of the whole, and those of the text behind
it are the others (`Lexed.append`). Wherever a text stands, its tokens say the same, and each covers the
bytes that it covers in the text alone, counted from where that begins (`Lexed.moved`).
-/

namespace PackageSheet

open String (utf8Len)

def TokenKind.isSingle : TokenKind → Bool
  | .colon | .semicolon | .comma | .openBrace | .closeBrace | .dot | .hash | .equals => true
  | _ => false

/-- A text that takes nothing of what follows it. -/
inductive Closed (dialect : Dialect) : List Char → Prop where
  | gap {gap : List Char} (trivia : Trivia False gap) : Closed dialect gap
  | token {cs gap after : List Char} {c : Char} (skipped : Gap.blank.split cs = (gap, c :: after))
      (ends : Lexeme.single? c ≠ none ∨ (Lexeme.read dialect c after).rest ≠ [])
      (rest : Closed dialect (Lexeme.read dialect c after).rest) : Closed dialect cs

namespace Gap

variable {mode : Gap} {cs gap after more : List Char} {c : Char}

private theorem split_append_of_cons (found : mode.split cs = (gap, c :: after))
    (slash : c = '/' → after ≠ []) : mode.split (cs ++ more) = (gap, c :: (after ++ more)) := by
  fun_induction Gap.split mode cs generalizing gap with
  | case1 => cases found
  | case2 cs inner rest split ih =>
    cases found
    exact congrArg (fun p => ('/' :: '/' :: p.1, p.2)) (ih split)
  | case3 cs inner rest split ih =>
    cases found
    exact congrArg (fun p => ('/' :: '*' :: p.1, p.2)) (ih split)
  | case4 d cs line block blank inner rest split ih =>
    cases found
    have other : d ≠ '/' := by
      rintro rfl
      exact absurd blank (by decide)
    rw [List.cons_append, Gap.split.eq_def]
    split <;> simp_all
  | case5 d cs line block visible =>
    cases found
    rw [List.cons_append, Gap.split.eq_def]
    cases after <;> split <;> simp_all
  | case6 d cs inner rest split ih =>
    cases found
    rw [List.cons_append, Gap.split.eq_def]
    split <;> simp_all
  | case7 cs inner rest split ih =>
    cases found
    exact congrArg (fun p => ('*' :: '/' :: p.1, p.2)) (ih split)
  | case8 d cs other inner rest split ih =>
    cases found
    cases cs with
    | nil => cases split
    | cons first cs =>
      rw [List.cons_append, Gap.split.eq_def]
      split <;> simp_all

end Gap

namespace Lexeme

variable {dialect : Dialect} {cs more : List Char} {c quote : Char} {depth : Nat} {kind : TokenKind}
  {p : Char → Bool} {lexeme : Lexeme}

def before (lexeme : Lexeme) (more : List Char) : Lexeme :=
  { lexeme with rest := lexeme.rest ++ more }

private theorem quoted_before (inside : (quoted quote cs).rest ≠ []) :
    quoted quote (cs ++ more) = (quoted quote cs).before more := by
  fun_induction quoted quote cs with
  | case1 | case3 => exact absurd rfl inside
  | case2 cs => rfl
  | case4 c cs ih => exact congrArg (prepend [escaped c] ['\\', c]) (ih inside)
  | case5 cs feed last slash =>
    have plain : quote ≠ '\\' := by
      intro same
      cases cs with
      | nil => exact last same rfl
      | cons c cs => exact slash c cs same rfl
    rw [List.cons_append, quoted.eq_def]
    split <;> simp_all [before]
  | case6 c cs feed last slash other ih =>
    have plain : c ≠ '\\' := by
      intro same
      cases cs with
      | nil => exact last same rfl
      | cons c cs => exact slash c cs same rfl
    have later := ih inside
    rw [List.cons_append, quoted.eq_def]
    split <;> simp_all [before, prepend]

private theorem atQuoted_before (inside : (atQuoted cs).rest ≠ []) :
    atQuoted (cs ++ more) = (atQuoted cs).before more := by
  fun_induction atQuoted cs with
  | case1 => exact absurd rfl inside
  | case2 cs ih => exact congrArg (prepend ['\x22'] ['\x22', '\x22']) (ih inside)
  | case3 cs other =>
    cases cs with
    | nil => exact absurd rfl inside
    | cons d cs =>
      rw [List.cons_append, atQuoted]
      · rfl
      · rintro rest whole
        obtain ⟨rfl, -⟩ := List.cons.inj whole
        exact other cs rfl
  | case4 c cs pair quote ih =>
    rw [List.cons_append, atQuoted, ih inside]
    · rfl
    · exact fun _ same _ => quote same
    · exact quote

private theorem bracketed_before (inside : (bracketed depth cs).rest ≠ []) :
    bracketed depth (cs ++ more) = (bracketed depth cs).before more := by
  fun_induction bracketed depth cs with
  | case1 => exact absurd rfl inside
  | case2 cs => rfl
  | case3 depth cs ih => exact congrArg (prepend [']'] [']']) (ih inside)
  | case4 depth cs ih =>
    rw [List.cons_append, bracketed, ih inside]
    rfl
  | case5 depth c cs _ _ _ ih =>
    have later := ih inside
    rw [List.cons_append, bracketed.eq_def]
    split <;> simp_all [before, prepend]

theorem run_before (inside : (run kind p cs).rest ≠ []) :
    run kind p (cs ++ more) = (run kind p cs).before more := by
  have taken : (cs ++ more).takeWhile p = cs.takeWhile p ∧
      (cs ++ more).dropWhile p = cs.dropWhile p ++ more := by
    replace inside : cs.dropWhile p ≠ [] := inside
    induction cs with
    | nil => exact absurd rfl inside
    | cons c cs ih =>
      by_cases part : p c = true
      · rw [List.dropWhile_cons_of_pos part] at inside ⊢
        obtain ⟨taken, left⟩ := ih inside
        rw [List.cons_append, List.takeWhile_cons_of_pos part, List.takeWhile_cons_of_pos part,
          List.dropWhile_cons_of_pos part, taken, left]
        exact ⟨rfl, rfl⟩
      · simp [part]
  simp [run, before, taken]

private theorem afterAt_before (inside : (afterAt dialect cs).rest ≠ []) :
    afterAt dialect (cs ++ more) = (afterAt dialect cs).before more := by
  cases cs with
  | nil => exact absurd rfl inside
  | cons c cs =>
    by_cases mark : c = '\x22'
    · subst mark
      exact congrArg (prepend [] ['\x22']) (atQuoted_before inside)
    · have other (cs : List Char) : afterAt dialect (c :: cs) =
          if dialect.isStart c then run .directive dialect.isPart (c :: cs)
          else ⟨.unknown, ['@'], [], c :: cs⟩ := by
        rw [afterAt]
        exact mark
      rw [other] at inside ⊢
      rw [List.cons_append, other]
      split
      · rename_i start
        rw [if_pos start] at inside
        exact run_before inside
      · rfl

private theorem read_before (ends : single? c ≠ none ∨ (read dialect c cs).rest ≠ []) :
    read dialect c (cs ++ more) = (read dialect c cs).before more := by
  rcases ends with single | inside
  · obtain ⟨kind, single⟩ := Option.ne_none_iff_exists'.mp single
    rw [read_single single, read_single single]
    rfl
  unfold read at inside ⊢
  by_cases quote : c = '\x22' ∨ c = '\x27'
  · simp only [if_pos quote] at inside ⊢
    exact congrArg (prepend [] [c]) (quoted_before inside)
  simp only [if_neg quote] at inside ⊢
  by_cases sign : c = '@'
  · simp only [if_pos sign] at inside ⊢
    exact congrArg (prepend [] [c]) (afterAt_before inside)
  simp only [if_neg sign] at inside ⊢
  by_cases bracket : c = '['
  · simp only [if_pos bracket] at inside ⊢
    rw [bracketed_before inside]
    rfl
  simp only [if_neg bracket] at inside ⊢
  cases known : single? c with
  | some kind => rfl
  | none =>
    simp only [known] at inside ⊢
    by_cases start : dialect.isStart c = true
    · simp only [if_pos start] at inside ⊢
      exact congrArg (prepend [c] [c]) (run_before inside)
    simp only [if_neg start] at inside ⊢
    by_cases digit : Text.isDigit c = true
    · simp only [if_pos digit] at inside ⊢
      exact congrArg (prepend [c] [c]) (run_before inside)
    simp only [if_neg digit]
    split <;> rfl

private theorem single?_of_isSingle (single : (read dialect c cs).kind.isSingle = true) :
    single? c ≠ none := by
  intro unknown
  unfold read at single
  split at single
  · rcases kind_quoted c cs with kind | kind <;> simp [prepend, kind, TokenKind.isSingle] at single
  split at single
  · simp only [prepend] at single
    unfold afterAt at single
    split at single
    · rename_i cs
      rcases kind_atQuoted cs with kind | kind <;> simp [prepend, kind, TokenKind.isSingle] at single
    · split at single <;> simp [run, TokenKind.isSingle] at single
    · cases single
  split at single
  · rcases kind_bracketed 0 cs with kind | kind <;>
      simp [prepend, kind, TokenKind.isSingle] at single
  rw [unknown] at single
  dsimp only at single
  split at single
  · cases single
  split at single
  · cases single
  split at single <;> cases single

private theorem ne_nil_of_ends (ends : single? c ≠ none ∨ (read dialect c cs).rest ≠ [])
    (slash : c = '/') :
    cs ≠ [] := by
  rintro rfl
  subst slash
  rcases ends with single | inside
  · exact single rfl
  · have whole := congrArg List.length (read_append dialect '/' [])
    have some := List.length_pos_iff.mpr (read_spelling_ne_nil dialect '/' [])
    have more := List.length_pos_iff.mpr inside
    rw [List.length_append, List.length_singleton] at whole
    omega

end Lexeme

/-- A token that says the same as another one, and covers the bytes of the same place in a text that
stands behind others. -/
structure Token.Moved (first second size : Nat) (token copy : Token) : Prop where
  content : copy.content = token.content
  covers : ∃ start stop, token.start = first + start ∧ token.stop = first + stop ∧
    copy.start = second + start ∧ copy.stop = second + stop ∧ stop ≤ size

theorem Token.content_of_moved {first second size : Nat} {ts us : List Token}
    (moved : List.Forall₂ (Token.Moved first second size) ts us) :
    us.map Token.content = ts.map Token.content := by
  induction moved with
  | nil => rfl
  | cons own others ih => rw [List.map_cons, List.map_cons, own.content, ih]

theorem Token.exists_getLast_of_moved {first second size : Nat} {t u : Token} {ts us : List Token}
    (own : Token.Moved first second size t u)
    (moved : List.Forall₂ (Token.Moved first second size) ts us) :
    ∃ last copy, (t :: ts).getLast? = some last ∧ (u :: us).getLast? = some copy ∧
      Token.Moved first second size last copy := by
  induction moved generalizing t u with
  | nil => exact ⟨t, u, rfl, rfl, own⟩
  | cons next others ih =>
    rw [List.getLast?_cons_cons, List.getLast?_cons_cons]
    exact ih next

namespace Lexed

variable {dialect : Dialect} {before ahead cs rest gap : List Char} {tokens copies : List Token}

/-- The tokens of a text behind trivia are those of both together. -/
theorem behind_trivia (trivia : Trivia False gap) (lexed : Lexed dialect before (gap ++ cs) tokens) :
    Lexed dialect (before ++ gap) cs tokens := by
  have skips := trivia.split_append cs
  cases lexed with
  | done skipped =>
    obtain ⟨-, none⟩ := Prod.mk.inj (skips.symm.trans skipped)
    exact .done (Prod.ext rfl none)
  | token skipped read lexed =>
    obtain ⟨rfl, some⟩ := Prod.mk.inj (skips.symm.trans skipped)
    rw [← List.append_assoc] at read lexed
    exact .token (Prod.ext rfl some) read lexed

/-- The tokens of a closed text come first, and then those of the text behind it. -/
theorem append (closed : Closed dialect cs) (lexed : Lexed dialect before (cs ++ rest) tokens) :
    ∃ first others, tokens = first ++ others ∧ Lexed dialect before cs first ∧
      Lexed dialect (before ++ cs) rest others := by
  induction closed generalizing before tokens with
  | gap trivia =>
    have skips := trivia.split_append []
    rw [List.append_nil] at skips
    exact ⟨[], tokens, rfl, .done (skips.trans (Prod.ext (List.append_nil _) rfl)),
      lexed.behind_trivia trivia⟩
  | @token cs gap after c skipped ends closed ih =>
    have skips := @Gap.split_append_of_cons _ _ _ _ rest _ skipped (Lexeme.ne_nil_of_ends ends)
    have same := @Lexeme.read_before _ _ rest _ ends
    have whole := Gap.split_append .blank cs
    rw [skipped, ← Lexeme.read_append dialect c after] at whole
    obtain ⟨own, tokens, rfl, ⟨kind, text, covers⟩, lexed⟩ := lexed.exists_cons skips
    rw [same] at kind text covers lexed
    obtain ⟨first, others, rfl, inside, behind⟩ := ih lexed
    refine ⟨own :: first, others, rfl, .token skipped ⟨kind, text, covers⟩ inside, ?_⟩
    rw [← whole]
    simpa [Lexeme.before] using behind

private theorem moved_behind {part : List Char} (lexed : Lexed dialect (before ++ part) cs tokens)
    (other : Lexed dialect (ahead ++ part) cs copies) :
    List.Forall₂ (Token.Moved (utf8Len before) (utf8Len ahead) (utf8Len (part ++ cs))) tokens
      copies := by
  generalize place : before ++ part = behind at lexed
  induction lexed generalizing part copies with
  | done skipped =>
    rw [other.eq_nil skipped]
    exact .nil
  | @token behind cs gap after c token tokens skipped read rest ih =>
    subst place
    obtain ⟨copy, copies, rfl, own, others⟩ := other.exists_cons skipped
    have whole := Gap.split_append .blank cs
    rw [skipped, ← Lexeme.read_append dialect c after] at whole
    rw [List.append_assoc ahead, List.append_assoc ahead] at others
    have later := ih others (by simp)
    have same : part ++ gap ++ (Lexeme.read dialect c after).spelling ++
        (Lexeme.read dialect c after).rest = part ++ cs := by
      rw [← whole]
      simp
    rw [same] at later
    refine .cons ⟨?_, utf8Len (part ++ gap),
      utf8Len (part ++ gap ++ (Lexeme.read dialect c after).spelling), ?_⟩ later
    · rw [Token.content, Token.content, own.kind, own.text, read.kind, read.text]
    · rw [read.covers.start, read.covers.stop, own.covers.start, own.covers.stop, ← same]
      simp only [String.utf8Len_append]
      omega

theorem moved (lexed : Lexed dialect before cs tokens) (other : Lexed dialect ahead cs copies) :
    List.Forall₂ (Token.Moved (utf8Len before) (utf8Len ahead) (utf8Len cs)) tokens copies := by
  rw [← List.append_nil before] at lexed
  rw [← List.append_nil ahead] at other
  exact lexed.moved_behind other

theorem unique (lexed : Lexed dialect before cs tokens) (other : Lexed dialect before cs copies) :
    copies = tokens := by
  induction lexed generalizing copies with
  | done skipped => exact other.eq_nil skipped
  | @token before cs gap after c token tokens skipped read rest ih =>
    obtain ⟨copy, copies, rfl, own, others⟩ := other.exists_cons skipped
    obtain ⟨kind, text, covers⟩ := read
    obtain ⟨kind', text', covers'⟩ := own
    have same : copy = token := by
      obtain ⟨⟩ := covers
      obtain ⟨⟩ := covers'
      cases token
      cases copy
      simp_all
    rw [same, ih others]

end Lexed

/-- A text whose tokens end with it, in one that is a character by itself, is closed. -/
theorem closed_of_ends {dialect : Dialect} {before cs : List Char} {tokens : List Token}
    (lexed : Lexed dialect before cs tokens)
    (ends : ∃ t ∈ tokens.getLast?, t.kind.isSingle = true ∧ t.stop = utf8Len (before ++ cs)) :
    Closed dialect cs := by
  induction lexed with
  | done => simp at ends
  | @token before cs gap after c token tokens skipped read rest ih =>
    have whole := Gap.split_append .blank cs
    rw [skipped, ← Lexeme.read_append dialect c after] at whole
    have size : before ++ gap ++ (Lexeme.read dialect c after).spelling ++
        (Lexeme.read dialect c after).rest = before ++ cs := by
      rw [← whole]
      simp
    obtain ⟨t, last, single, stop⟩ := ends
    cases tokens with
    | nil =>
      obtain rfl : token = t := Option.some.inj last
      rw [read.covers.stop, ← size, String.utf8Len_append _ (Lexeme.read dialect c after).rest] at stop
      have none : (Lexeme.read dialect c after).rest = [] := String.utf8Len_eq_zero.mp (by omega)
      refine .token skipped (.inl (Lexeme.single?_of_isSingle (read.kind ▸ single))) ?_
      rw [none]
      exact .gap .nil
    | cons next tokens =>
      rw [List.getLast?_cons_cons] at last
      refine .token skipped (.inr fun none => ?_) (ih ⟨t, last, single, by rw [stop, size]⟩)
      rw [none] at rest
      cases rest with
      | token found => cases found

namespace Token

def known (text : String) : List Token :=
  (ofText .hyphenated text).filter (·.kind != .unknown)

/-- The tokens of a text of three parts, of which the first two are closed. -/
theorem known_append {front inner : String} (ahead : Closed .hyphenated front.toList)
    (closed : Closed .hyphenated inner.toList) (back : String) :
    ∃ inside behind, known (front ++ inner ++ back) =
        known front ++ (inside ++ behind.filter (·.kind != .unknown)) ∧
      inside.map content = (known inner).map content ∧
      Lexed .hyphenated (front ++ inner).toList back.toList behind := by
  have whole := lexed_ofText .hyphenated (front ++ inner ++ back)
  rw [String.toList_append, String.toList_append, List.append_assoc] at whole
  obtain ⟨first, others, split, own, rest⟩ := whole.append ahead
  obtain ⟨inside, behind, rfl, middle, last⟩ := rest.append closed
  have same : first = ofText .hyphenated front := (lexed_ofText .hyphenated front).unique own
  refine ⟨inside.filter (·.kind != .unknown), behind, ?_, ?_, ?_⟩
  · rw [known, split, same, List.filter_append, List.filter_append]
    rfl
  · have moved := (lexed_ofText .hyphenated inner).moved middle
    have contents := content_of_moved moved
    have known (tokens : List Token) : (tokens.filter (·.kind != .unknown)).map content =
        (tokens.map content).filter (·.1 != .unknown) := by
      rw [List.filter_map]
      rfl
    rw [Token.known, known, known, contents]
  · rw [String.toList_append]
    exact last

end Token

end PackageSheet
