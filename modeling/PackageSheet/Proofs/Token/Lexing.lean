import Mathlib.Data.List.Induction
import Mathlib.Data.String.Basic
import PackageSheet.Proofs.Token.Trivia
import PackageSheet.Token.Stream

namespace PackageSheet

open String (utf8Len)

/-- The bytes that a token names are those of its spelling behind some text, and its line and column
count the line feeds in that text and the characters after the last of them. -/
structure Token.Covers (token : Token) (before spelling : List Char) : Prop where
  start : token.start = utf8Len before
  stop : token.stop = utf8Len (before ++ spelling)
  line : token.line = 1 + before.count '\n'
  column : token.column = 1 + (before.reverse.takeWhile (· != '\n')).length

/-- A token is what is read behind some text at a character that others follow. -/
structure Token.IsRead (token : Token) (dialect : Dialect) (before : List Char) (c : Char)
    (cs : List Char) : Prop where
  kind : token.kind = (Lexeme.read dialect c cs).kind
  text : token.text = String.ofList (Lexeme.read dialect c cs).text
  covers : token.Covers before (Lexeme.read dialect c cs).spelling

/-- The tokens of what follows some text. -/
inductive Lexed (dialect : Dialect) : List Char → List Char → List Token → Prop where
  | done {before cs gap : List Char} (skipped : Gap.blank.split cs = (gap, [])) :
      Lexed dialect before cs []
  | token {before cs gap after : List Char} {c : Char} {token : Token} {tokens : List Token}
      (skipped : Gap.blank.split cs = (gap, c :: after))
      (read : token.IsRead dialect (before ++ gap) c after)
      (rest : Lexed dialect (before ++ gap ++ (Lexeme.read dialect c after).spelling)
        (Lexeme.read dialect c after).rest tokens) :
      Lexed dialect before cs (token :: tokens)

namespace Position

theorem after_append (place : Position) (first second : List Char) :
    place.after (first ++ second) = (place.after first).after second :=
  List.foldl_append

private theorem after_eq (cs : List Char) :
    Position.after {} cs = ⟨utf8Len cs, 1 + cs.count '\n',
      1 + (cs.reverse.takeWhile (· != '\n')).length⟩ := by
  induction cs using List.reverseRecOn with
  | nil => rfl
  | append_singleton cs c ih =>
    rw [after_append, ih]
    by_cases feed : c = '\n'
    · simp [after, next, feed, Nat.add_assoc]
    · simp [after, next, feed, Nat.add_assoc]

end Position

namespace TokenStream

variable {stream : TokenStream} {before gap cs : List Char} {c : Char}

/-- A stream stands at the place behind some text. -/
def Behind (stream : TokenStream) (before : List Char) : Prop :=
  stream.position = Position.after {} before

theorem next_of_gap (skipped : Gap.blank.split stream.rest = (gap, [])) :
    stream.next = (none, { stream with position := stream.position.after gap, rest := [] }) := by
  simp [next, skipped]

private theorem next_of_read (skipped : Gap.blank.split stream.rest = (gap, c :: cs))
    (behind : stream.Behind before) :
    ∃ token after, stream.next = (some token, after) ∧
      token.IsRead stream.dialect (before ++ gap) c cs ∧ after.dialect = stream.dialect ∧
      after.rest = (Lexeme.read stream.dialect c cs).rest ∧
      after.Behind (before ++ gap ++ (Lexeme.read stream.dialect c cs).spelling) := by
  have start : stream.position.after gap = Position.after {} (before ++ gap) := by
    rw [behind, Position.after_append]
  have stop := Position.after_append {} (before ++ gap) (Lexeme.read stream.dialect c cs).spelling
  rw [← start] at stop
  unfold next
  rw [skipped]
  refine ⟨_, _, rfl, ⟨rfl, rfl, ?_⟩, rfl, rfl, stop.symm⟩
  constructor
  · rw [start, Position.after_eq]
  · rw [← stop, Position.after_eq]
  · rw [start, Position.after_eq]
  · rw [start, Position.after_eq]

/-- A stream yields its next token and then what the stream after it yields. -/
theorem tokens_eq (stream : TokenStream) :
    stream.tokens = stream.next.1.toList ++ stream.next.2.tokens := by
  rcases asked : stream.next with ⟨_ | token, after⟩
  · have empty : after.next? = none := by
      rw [next?_eq_none]
      rcases skipped : Gap.blank.split stream.rest with ⟨gap, _ | ⟨c, cs⟩⟩
      · rw [next_of_gap skipped] at asked
        cases asked
        rfl
      · simp [next, skipped] at asked
    rw [tokens_eq_nil (next?_eq_none.mpr (congrArg Prod.fst asked)), tokens_eq_nil empty]
    rfl
  · exact tokens_eq_cons (next?_eq_some.mpr asked)

/-- A stream without an answer has no tokens, and has none after it was asked. -/
theorem tokens_of_next_eq_none (none : stream.next.1 = none) :
    stream.tokens = [] ∧ stream.next.2.tokens = [] := by
  have empty := tokens_eq_nil (next?_eq_none.mpr none)
  have whole := tokens_eq stream
  rw [empty, none] at whole
  exact ⟨empty, whole.symm⟩

/-- The tokens of a stream are those of the text ahead of it. -/
theorem lexed_tokens (behind : stream.Behind before) :
    Lexed stream.dialect before stream.rest stream.tokens := by
  induction length : stream.rest.length using Nat.strong_induction_on
    generalizing stream before with
  | _ n ih =>
    rcases skipped : Gap.blank.split stream.rest with ⟨gap, _ | ⟨c, cs⟩⟩
    · rw [(tokens_of_next_eq_none (congrArg Prod.fst (next_of_gap skipped))).1]
      exact .done skipped
    · obtain ⟨token, after, asked, read, same, rest, there⟩ := next_of_read skipped behind
      have shorter := length_rest_of_next? (next?_eq_some.mpr asked)
      have onward := ih _ (length ▸ shorter) there rfl
      rw [tokens_eq, asked]
      rw [same, rest] at onward
      exact .token skipped read onward

end TokenStream

theorem lexed_ofText (dialect : Dialect) (text : String) :
    Lexed dialect [] text.toList (Token.ofText dialect text) :=
  @TokenStream.lexed_tokens (.ofText dialect text.toList) [] rfl

namespace Lexed

variable {dialect : Dialect} {before cs gap after : List Char} {c : Char} {tokens : List Token}
  {token : Token}

theorem eq_nil (skipped : Gap.blank.split cs = (gap, [])) (lexed : Lexed dialect before cs tokens) :
    tokens = [] := by
  cases lexed with
  | done => rfl
  | token found => cases skipped.symm.trans found

/-- Behind a gap comes the token that is read there, and then those of what is left. -/
theorem exists_cons (skipped : Gap.blank.split cs = (gap, c :: after))
    (lexed : Lexed dialect before cs tokens) :
    ∃ first others, tokens = first :: others ∧ first.IsRead dialect (before ++ gap) c after ∧
      Lexed dialect (before ++ gap ++ (Lexeme.read dialect c after).spelling)
        (Lexeme.read dialect c after).rest others := by
  cases lexed with
  | done none => cases skipped.symm.trans none
  | token found read rest =>
    cases skipped.symm.trans found
    exact ⟨_, _, rfl, read, rest⟩

/-- Each token is what is read somewhere in the text, at a character that is not blank. -/
theorem exists_isRead (lexed : Lexed dialect before cs tokens) (member : token ∈ tokens) :
    ∃ ahead c after, cs = ahead ++ c :: after ∧ Text.isBlank c = false ∧
      token.IsRead dialect (before ++ ahead) c after := by
  induction lexed with
  | done => cases member
  | @token before cs gap after c first tokens skipped read rest ih =>
    have whole := Gap.split_append .blank cs
    rw [skipped] at whole
    rcases List.mem_cons.mp member with rfl | later
    · have visible := @Gap.not_isBlank_of_split c cs .blank after (congrArg Prod.snd skipped)
      exact ⟨gap, c, after, whole.symm, visible, read⟩
    · obtain ⟨ahead, d, behind, split, visible, read⟩ := ih later
      refine ⟨gap ++ (Lexeme.read dialect c after).spelling ++ ahead, d, behind, ?_, visible, ?_⟩
      · rw [List.append_assoc, ← split, List.append_assoc, Lexeme.read_append]
        exact whole.symm
      · simpa using read

end Lexed

end PackageSheet
