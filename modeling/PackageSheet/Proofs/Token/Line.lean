import PackageSheet.Proofs.Token.Decoding
import PackageSheet.Proofs.Token.Joining

namespace PackageSheet

open String (utf8Len)

namespace Lexeme

variable {dialect : Dialect} {quote c : Char} {cs : List Char}

private theorem read_of_isQuote (mark : IsQuote c) : read dialect c cs = (quoted c cs).prepend [] [c] :=
  if_pos mark

private theorem isQuote_of_kind (visible : Text.isBlank c = false)
    (kind : (read dialect c cs).kind = .stringLiteral) : IsQuote c := by
  have whole := read_append dialect c cs
  have decodes := @decodes_read dialect c cs visible
  rw [kind] at decodes
  generalize (read dialect c cs).text = text at decodes
  generalize (read dialect c cs).spelling = spelling at decodes whole
  cases decodes with
  | stringLiteral mark =>
    obtain ⟨rfl, -⟩ := List.cons.inj whole
    exact mark
  | single known =>
    unfold single? at known
    split at known <;> cases known

/-- A line feed is read as part of a literal exactly if a backslash stands before it that is not
escaped itself. -/
theorem feed_mem_quoted_iff (quote : Char) (cs : List Char) :
    '\n' ∈ (quoted quote cs).spelling ↔ ∃ front said back, Escapes (PlainInLine quote) front said ∧
      (quoted quote cs).spelling = front ++ '\\' :: '\n' :: back := by
  constructor
  · fun_induction quoted quote cs with
    | case1 | case2 => simp
    | case3 => simp
    | case4 c cs ih =>
      intro member
      by_cases feed : c = '\n'
      · exact ⟨[], [], (quoted quote cs).spelling, .nil, by simp [feed]⟩
      · have later : '\n' ∈ (quoted quote cs).spelling := by simpa [Ne.symm feed] using member
        obtain ⟨front, said, back, read, whole⟩ := ih later
        exact ⟨'\\' :: c :: front, _, back, .escaped read, by simp [whole]⟩
    | case5 cs feed =>
      intro member
      exact absurd (List.mem_singleton.mp member).symm feed
    | case6 c cs feed last escape other ih =>
      intro member
      have later : '\n' ∈ (quoted quote cs).spelling :=
        (List.mem_cons.mp member).resolve_left fun same => feed same.symm
      have backslash : c ≠ '\\' := by
        rintro rfl
        cases cs with
        | nil => exact last rfl rfl
        | cons d cs => exact escape d cs rfl rfl
      obtain ⟨front, said, back, read, whole⟩ := ih later
      exact ⟨c :: front, _, back, .plain ⟨other, backslash, feed⟩ read, by simp [whole]⟩
  · rintro ⟨front, said, back, -, whole⟩
    simp [whole]

private theorem rest_quoted (unclosed : (quoted quote cs).kind = .unknown) :
    (quoted quote cs).rest = [] ∨ ∃ more, (quoted quote cs).rest = '\n' :: more := by
  fun_induction quoted quote cs with
  | case1 => exact .inl rfl
  | case2 cs => exact .inr ⟨cs, rfl⟩
  | case3 => exact .inl rfl
  | case4 c cs ih => exact ih unclosed
  | case5 => cases unclosed
  | case6 c cs _ _ _ _ ih => exact ih unclosed

end Lexeme

/-- A token as it lies behind a text, all of it on the line after a break. -/
def Token.behind (ahead : List Char) (token : Token) : Token where
  kind := token.kind
  text := token.text
  start := utf8Len ahead + token.start
  stop := utf8Len ahead + token.stop
  line := ahead.count '\n' + token.line
  column := token.column

private theorem Token.Covers.behind {token : Token} {part spelling : List Char}
    (covers : token.Covers ('\n' :: part) spelling) (ahead : List Char) :
    (token.behind ahead).Covers (ahead ++ '\n' :: part) spelling where
  start := by simp [Token.behind, covers.start, String.utf8Len_append]
  stop := by
    rw [List.append_assoc, String.utf8Len_append]
    exact congrArg (utf8Len ahead + ·) covers.stop
  line := by
    rw [List.count_append, Nat.add_left_comm]
    exact congrArg (ahead.count '\n' + ·) covers.line
  column := by
    have same (front : List Char) : (front ++ '\n' :: part).reverse.takeWhile (· != '\n') =
        part.reverse.takeWhile (· != '\n') := by
      simp only [List.reverse_append, List.reverse_cons, List.append_assoc, List.singleton_append,
        List.takeWhile_append, List.takeWhile_cons, bne_self_eq_false, Bool.false_eq_true, if_false,
        List.append_nil]
      split
      · rename_i full
        exact ((List.takeWhile_prefix _).eq_of_length full).symm
      · rfl
    rw [same]
    exact covers.column.trans (by rw [← same []]; rfl)

namespace Lexed

variable {dialect : Dialect} {before part cs : List Char} {tokens first tail : List Token}
  {token : Token}

private theorem behind (lexed : Lexed dialect ('\n' :: part) cs tokens) (ahead : List Char) :
    Lexed dialect (ahead ++ '\n' :: part) cs (tokens.map (·.behind ahead)) := by
  generalize place : '\n' :: part = before at lexed
  induction lexed generalizing part with
  | done skipped => exact .done skipped
  | @token before cs gap after c token tokens skipped read rest ih =>
    subst place
    have inner : ('\n' :: part) ++ gap = '\n' :: (part ++ gap) := rfl
    obtain ⟨kind, text, covers⟩ := read
    rw [inner] at covers
    have there := covers.behind ahead
    have later := @ih (part ++ gap ++ (Lexeme.read dialect c after).spelling) rfl
    refine .token skipped ⟨kind, text, ?_⟩ ?_
    · simpa using there
    · simpa using later

private theorem split (lexed : Lexed dialect before cs (first ++ token :: tail)) :
    ∃ ahead c after, cs = ahead ++ c :: after ∧ Text.isBlank c = false ∧
      token.IsRead dialect (before ++ ahead) c after ∧
      Lexed dialect (before ++ ahead ++ (Lexeme.read dialect c after).spelling)
        (Lexeme.read dialect c after).rest tail := by
  generalize whole : first ++ token :: tail = tokens at lexed
  induction lexed generalizing first with
  | done => simp at whole
  | @token before cs gap after c head tokens skipped read rest ih =>
    have text := Gap.split_append .blank cs
    rw [skipped] at text
    cases first with
    | nil =>
      obtain ⟨rfl, rfl⟩ := List.cons.inj whole
      have visible := @Gap.not_isBlank_of_split c cs .blank after (congrArg Prod.snd skipped)
      exact ⟨gap, c, after, text.symm, visible, read, rest⟩
    | cons other first =>
      obtain ⟨-, onward⟩ := List.cons.inj whole
      obtain ⟨ahead, d, more, parts, visible, own, last⟩ := ih onward
      refine ⟨gap ++ (Lexeme.read dialect c after).spelling ++ ahead, d, more, ?_, visible, ?_, ?_⟩
      · rw [List.append_assoc, ← parts, List.append_assoc, Lexeme.read_append]
        exact text.symm
      · simpa using own
      · simpa using last

private theorem eq_map_behind (lexed : Lexed dialect before cs tokens)
    (ends : cs = [] ∨ ∃ more, cs = '\n' :: more) :
    tokens = (Token.ofText dialect (String.ofList cs)).map (·.behind before) := by
  have alone := lexed_ofText dialect (String.ofList cs)
  rw [String.toList_ofList] at alone
  rcases ends with rfl | ⟨more, rfl⟩
  · cases lexed with
    | token skipped => cases skipped
    | done =>
      cases aloneEq : Token.ofText dialect (String.ofList []) with
      | nil => rfl
      | cons first others =>
        rw [aloneEq] at alone
        cases alone with
        | token skipped => cases skipped
  · have feed : Trivia False ['\n'] := .blank (by decide) .nil
    have own := (behind_trivia feed alone).behind before
    exact own.unique (behind_trivia feed lexed)

end Lexed

/-- A token of a text that begins with a quote, a literal or an unknown token, goes on over a line
feed exactly if a backslash in it escapes that. If it is unknown then it ends in front of a line
feed or with the text, and the tokens behind it are those that the rest has by itself. -/
theorem literal_in_line (dialect : Dialect) (text : String) {first tail : List Token}
    {token : Token} (tokens : Token.ofText dialect text = first ++ token :: tail) :
    ∃ before spelling rest, text.toList = before ++ spelling ++ rest ∧
      token.Covers before spelling ∧
      (token.kind = .stringLiteral → ∃ quote ∈ spelling.head?, IsQuote quote) ∧
      ∀ quote ∈ spelling.head?, IsQuote quote →
        ('\n' ∈ spelling ↔ ∃ front said back, Escapes (PlainInLine quote) front said ∧
          spelling = quote :: (front ++ '\\' :: '\n' :: back)) ∧
        (token.kind = .unknown → (rest = [] ∨ ∃ more, rest = '\n' :: more) ∧
          tail =
            (Token.ofText dialect (String.ofList rest)).map (·.behind (before ++ spelling))) := by
  have lexed := lexed_ofText dialect text
  rw [tokens] at lexed
  obtain ⟨before, c, after, parts, visible, read, behind⟩ := lexed.split
  have whole := Lexeme.read_append dialect c after
  have opens : c ∈ (Lexeme.read dialect c after).spelling.head? := by
    obtain ⟨d, more, spelled⟩ :=
      List.exists_cons_of_ne_nil (Lexeme.read_spelling_ne_nil dialect c after)
    rw [spelled] at whole ⊢
    exact congrArg some (List.cons.inj whole).1
  refine ⟨before, (Lexeme.read dialect c after).spelling, (Lexeme.read dialect c after).rest, ?_,
    read.covers, fun kind => ?_, fun quote head mark => ?_⟩
  · rw [parts, List.append_assoc, whole]
  · exact ⟨c, opens, Lexeme.isQuote_of_kind visible (read.kind.symm.trans kind)⟩
  · obtain rfl : c = quote := Option.mem_unique opens head
    have kind := read.kind
    rw [Lexeme.read_of_isQuote mark] at kind behind ⊢
    have plain : '\n' ≠ c := by
      rcases mark with rfl | rfl <;> decide
    constructor
    · have feeds := Lexeme.feed_mem_quoted_iff c after
      simpa [plain] using feeds
    · intro unknown
      have ends := Lexeme.rest_quoted (kind.symm.trans unknown)
      exact ⟨ends, behind.eq_map_behind ends⟩

theorem literal_in_line_open :
    Token.ofText .standard "\"oops\nnext" =
        [] ++ ⟨.unknown, "oops", 0, 5, 1, 1⟩ :: [⟨.identifier, "next", 6, 10, 2, 1⟩] ∧
      ∃ before spelling rest, "\"oops\nnext".toList = before ++ spelling ++ rest ∧
        Token.Covers ⟨.unknown, "oops", 0, 5, 1, 1⟩ before spelling ∧
        ∀ quote ∈ spelling.head?, IsQuote quote →
          [⟨.identifier, "next", 6, 10, 2, 1⟩] =
            (Token.ofText .standard (String.ofList rest)).map (·.behind (before ++ spelling)) := by
  have tokens : Token.ofText .standard "\"oops\nnext" =
      [] ++ ⟨.unknown, "oops", 0, 5, 1, 1⟩ :: [⟨.identifier, "next", 6, 10, 2, 1⟩] := by
    decide +kernel
  obtain ⟨before, spelling, rest, whole, covers, -, quoted⟩ := literal_in_line .standard _ tokens
  refine ⟨tokens, before, spelling, rest, whole, covers, fun quote head mark => ?_⟩
  exact ((quoted quote head mark).2 rfl).2

/-- A backslash at the end of a line takes a literal that is left open on to the next one. -/
theorem literal_over_feed :
    ¬ ∀ dialect text, ∀ token ∈ Token.ofText dialect text, ∀ before spelling rest,
      text.toList = before ++ spelling ++ rest → token.Covers before spelling →
      (token.kind = .stringLiteral ∨
        token.kind = .unknown ∧ ∃ quote ∈ spelling.head?, IsQuote quote) →
      '\n' ∉ spelling := by
  have tokens : Token.ofText .standard "\"oops\\\nnext" =
      [⟨.unknown, "oops\nnext", 0, 11, 1, 1⟩] := by decide +kernel
  have member : ⟨.unknown, "oops\nnext", 0, 11, 1, 1⟩ ∈
      Token.ofText .standard "\"oops\\\nnext" := by simp [tokens]
  intro inLine
  refine inLine .standard _ _ member [] "\"oops\\\nnext".toList [] rfl ⟨rfl, rfl, rfl, rfl⟩
    (.inr ⟨rfl, '\x22', rfl, .inl rfl⟩) ?_
  decide

end PackageSheet
