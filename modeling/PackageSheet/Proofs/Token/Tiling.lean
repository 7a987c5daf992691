import PackageSheet.Proofs.Token.Lexing

namespace PackageSheet

open String (utf8Len)

/-- Tokens tile what follows some text: before each of them and behind the last stands trivia, and
each covers its spelling. -/
inductive Tiles : List Char → List Char → List Token → Prop where
  | gap {before gap : List Char} (trivia : Trivia True gap) : Tiles before gap []
  | token {before gap spelling rest : List Char} {token : Token} {tokens : List Token}
      (trivia : Trivia False gap) (some : spelling ≠ [])
      (covers : token.Covers (before ++ gap) spelling)
      (others : Tiles (before ++ gap ++ spelling) rest tokens) :
      Tiles before (gap ++ spelling ++ rest) (token :: tokens)

variable {dialect : Dialect} {before cs gap : List Char} {tokens : List Token} {token : Token}

theorem Lexed.tiles (lexed : Lexed dialect before cs tokens) : Tiles before cs tokens := by
  induction lexed with
  | @done before cs gap skipped =>
    have trivia := Gap.trivia_split cs
    have whole := Gap.split_append .blank cs
    rw [skipped] at trivia whole
    rw [← whole, List.append_nil]
    exact .gap (by simpa using trivia)
  | @token before cs gap after c token tokens skipped read rest ih =>
    have trivia := Gap.trivia_split cs
    have whole := Gap.split_append .blank cs
    rw [skipped] at trivia whole
    rw [← whole, ← Lexeme.read_append dialect c after, ← List.append_assoc]
    have some := Lexeme.read_spelling_ne_nil dialect c after
    exact .token (by simpa using trivia) some read.covers ih

theorem Tiles.start_lt_stop (tiles : Tiles before cs tokens) (member : token ∈ tokens) :
    token.start < token.stop := by
  induction tiles with
  | gap => cases member
  | @token before gap spelling rest first tokens trivia some covers others ih =>
    rcases List.mem_cons.mp member with rfl | later
    · have := mt String.utf8Len_eq_zero.mp some
      rw [covers.start, covers.stop, String.utf8Len_append _ spelling]
      omega
    · exact ih later

/-- Every token lies between what comes before the tokens and the end of the text. -/
theorem Tiles.within (tiles : Tiles before cs tokens) (member : token ∈ tokens) :
    utf8Len before ≤ token.start ∧ token.stop ≤ utf8Len (before ++ cs) := by
  induction tiles with
  | gap => cases member
  | @token before gap spelling rest first tokens trivia some covers others ih =>
    rcases List.mem_cons.mp member with rfl | later
    · rw [covers.start, covers.stop]
      simp only [String.utf8Len_append]
      omega
    · obtain ⟨low, high⟩ := ih later
      simp only [String.utf8Len_append] at low high ⊢
      omega

theorem Tiles.pairwise (tiles : Tiles before cs tokens) :
    tokens.Pairwise (fun first second => first.stop ≤ second.start) := by
  induction tiles with
  | gap => exact .nil
  | token trivia some covers others ih =>
    refine .cons (fun later member => ?_) ih
    rw [covers.stop]
    exact (others.within member).1

namespace TokenStream

/-- The stream after it was asked a number of times. -/
def advance (stream : TokenStream) : Nat → TokenStream
  | 0 => stream
  | n + 1 => stream.next.2.advance n

/-- A stream answers with its tokens in order, and after them with nothing, however often it is
asked. -/
theorem next_advance (stream : TokenStream) (n : Nat) :
    (stream.advance n).next.1 = stream.tokens[n]? := by
  induction n generalizing stream with
  | zero =>
    rw [advance, tokens_eq]
    cases answer : stream.next.1 with
    | none => simp [(tokens_of_next_eq_none answer).2]
    | some token => rfl
  | succ n ih =>
    rw [advance, ih, tokens_eq stream]
    cases answer : stream.next.1 with
    | none => simp [(tokens_of_next_eq_none answer).2]
    | some token => rfl

end TokenStream

/-- Collecting the tokens of a text yields tiles of the text between trivia: their spans are not
empty, lie in the text and do not overlap, and a stream over the text answers with them in order and
with nothing ever after. -/
theorem tokens_tile (dialect : Dialect) (text : String) :
    let tokens := Token.ofText dialect text
    Tiles [] text.toList tokens ∧
      (∀ token ∈ tokens, token.start < token.stop ∧ token.stop ≤ text.utf8ByteSize) ∧
      tokens.Pairwise (fun first second => first.stop ≤ second.start) ∧
      ∀ n, ((TokenStream.ofText dialect text.toList).advance n).next.1 = tokens[n]? := by
  intro tokens
  have tiles : Tiles [] text.toList tokens := (lexed_ofText dialect text).tiles
  refine ⟨tiles, fun token member => ⟨tiles.start_lt_stop member, ?_⟩, tiles.pairwise, ?_⟩
  · have size := String.utf8ByteSize_ofList text.toList
    rw [String.ofList_toList] at size
    rw [size]
    exact (tiles.within member).2
  · exact TokenStream.next_advance _

end PackageSheet
