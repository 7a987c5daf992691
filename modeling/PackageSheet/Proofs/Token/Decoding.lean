import PackageSheet.Proofs.Token.Spelling

/-!
What a token says about the characters that spell it. Each class of tokens has its rules of spelling
(`Decodes`), told without the way in which tokens are read, and every token of a text follows them
(`tokens_decode`). What is read of a literal or a parameter is compared with the bodies that the
rules allow: a body with a proper end is read up to this end (`quoted_escapes`), and what is read
has such a body or none was there to be found (`quoted_cases`, `atQuoted_cases`,
`bracketed_cases`).
-/

namespace PackageSheet

open String (utf8Len)

/-- A run of characters in front of a text: it begins with a character of one kind, goes on with
those of another, and the text in front of which it stands does not go on with it. -/
structure IsRun (first part : Char → Bool) (run rest : List Char) : Prop where
  opens : ∃ c ∈ run.head?, first c = true
  parts : ∀ c ∈ run, part c = true
  maximal : ∀ c ∈ rest.head?, part c = false

/-- The body of a literal between quotes and what it stands for: a backslash and the character after
it stand for what this character escapes, and a character that is allowed by itself for itself. -/
inductive Escapes (plain : Char → Prop) : List Char → List Char → Prop where
  | nil : Escapes plain [] []
  | escaped {c : Char} {body text : List Char} (rest : Escapes plain body text) :
      Escapes plain ('\\' :: c :: body) (Lexeme.escaped c :: text)
  | plain {c : Char} {body text : List Char} (own : plain c) (rest : Escapes plain body text) :
      Escapes plain (c :: body) (c :: text)

/-- The characters that stand for themselves between quotes: all but the quote, the backslash and
the line feed. -/
def PlainInLine (quote c : Char) : Prop :=
  c ≠ quote ∧ c ≠ '\\' ∧ c ≠ '\n'

/-- The two quotes. -/
def IsQuote (c : Char) : Prop :=
  c = '\x22' ∨ c = '\x27'

instance : DecidablePred IsQuote :=
  fun _ => inferInstanceAs (Decidable (_ ∨ _))

/-- A text goes on to a quote that ends the literal before it. -/
def EndsString (plain : Char → Prop) (quote : Char) (cs : List Char) : Prop :=
  ∃ body text after, Escapes plain body text ∧ cs = body ++ quote :: after

/-- A text goes on to a single quote, behind pairs of quotes alone. -/
def EndsAtString (cs : List Char) : Prop :=
  ∃ text after, cs = doubled text ++ '\x22' :: after ∧ after.head? ≠ some '\x22'

/-- A text goes on to the bracket that closes the one before it. -/
def EndsParameter (cs : List Char) : Prop :=
  ∃ body after, Balanced body ∧ cs = body ++ ']' :: after

/-- What tokens of each class say, how they are spelled, and what may follow: kind, text, spelling,
and the text behind the token. The characters that stand for themselves between quotes are given. -/
inductive Decodes (dialect : Dialect) (plain : Char → Char → Prop) :
    TokenKind → List Char → List Char → List Char → Prop where
  | identifier {run rest : List Char} (named : IsRun dialect.isStart dialect.isPart run rest) :
      Decodes dialect plain .identifier run run rest
  | numericLiteral {run rest : List Char}
      (number : IsRun Text.isDigit Lexeme.isNumberPart run rest) :
      Decodes dialect plain .numericLiteral run run rest
  | directive {run rest : List Char} (named : IsRun dialect.isStart dialect.isPart run rest) :
      Decodes dialect plain .directive run ('@' :: run) rest
  | selectorParameter {body rest : List Char} (balanced : Balanced body) :
      Decodes dialect plain .selectorParameter (Text.trim body) ('[' :: (body ++ [']'])) rest
  | atStringLiteral {text rest : List Char} (single : rest.head? ≠ some '\x22') :
      Decodes dialect plain .atStringLiteral text
        ('@' :: '\x22' :: (doubled text ++ ['\x22'])) rest
  | stringLiteral {quote : Char} {body text rest : List Char} (quoted : IsQuote quote)
      (read : Escapes (plain quote) body text) :
      Decodes dialect plain .stringLiteral text (quote :: (body ++ [quote])) rest
  | single {c : Char} {kind : TokenKind} {rest : List Char}
      (single : Lexeme.single? c = some kind) :
      Decodes dialect plain kind [c] [c] rest
  | symbol {c : Char} {rest : List Char} (mark : Text.isPunctuation c = true)
      (other : c ∉ ['\x22', '\x27', '@', '['] ∧ Lexeme.single? c = none ∧
        dialect.isStart c = false) :
      Decodes dialect plain .symbol [c] [c] rest
  | unclassified {c : Char} {rest : List Char} (visible : Text.isBlank c = false)
      (other : dialect.isStart c = false ∧ Text.isDigit c = false ∧ Text.isPunctuation c = false) :
      Decodes dialect plain .unknown [c] [c] rest
  | loneAt {rest : List Char} (alone : ∀ c ∈ rest.head?, c ≠ '\x22' ∧ dialect.isStart c = false) :
      Decodes dialect plain .unknown ['@'] ['@'] rest
  | openString {quote : Char} {body tail text rest : List Char} (quoted : IsQuote quote)
      (read : Escapes (plain quote) body text) (cut : tail = [] ∨ tail = ['\\'] ∧ rest = [])
      (endless : ¬ EndsString (plain quote) quote (body ++ tail ++ rest)) :
      Decodes dialect plain .unknown text (quote :: (body ++ tail)) rest
  | openAtString {text : List Char} (endless : ¬ EndsAtString (doubled text)) :
      Decodes dialect plain .unknown text ('@' :: '\x22' :: doubled text) []
  | openParameter {body : List Char} (endless : ¬ EndsParameter body) :
      Decodes dialect plain .unknown (Text.trim body) ('[' :: body) []

/-- A token stands somewhere in a text for what its slice of the text says. -/
def Token.IsDecoded (token : Token) (dialect : Dialect) (plain : Char → Char → Prop)
    (source : List Char) : Prop :=
  ∃ before spelling rest, source = before ++ spelling ++ rest ∧ token.Covers before spelling ∧
    Decodes dialect plain token.kind token.text.toList spelling rest

/-- A text behind brackets that are still open: it closes a number of them, and brackets are
balanced in front of each closing one and at the end. -/
inductive Closes : Nat → List Char → Prop where
  | balanced {body : List Char} (balanced : Balanced body) : Closes 0 body
  | close {depth : Nat} {body rest : List Char} (balanced : Balanced body)
      (others : Closes depth rest) : Closes (depth + 1) (body ++ ']' :: rest)

namespace Closes

variable {depth : Nat} {c : Char} {cs : List Char}

private theorem other (plain : c ≠ '[' ∧ c ≠ ']') (closes : Closes depth cs) :
    Closes depth (c :: cs) := by
  cases closes with
  | balanced balanced => exact .balanced (.other plain balanced)
  | close balanced others => exact .close (.other plain balanced) others

private theorem nested (closes : Closes (depth + 1) cs) : Closes depth ('[' :: cs) := by
  obtain _ | ⟨inner, others⟩ := closes
  cases others with
  | balanced balanced => exact .balanced (.nested inner balanced)
  | @close depth body rest balanced others =>
    have whole := Closes.close (.nested inner balanced) others
    rwa [List.cons_append, List.append_assoc, List.cons_append] at whole

end Closes

namespace Lexeme

variable {dialect : Dialect} {quote c : Char} {cs body text rest : List Char} {kind : TokenKind}

theorem isRun_run {first part : Char → Bool} (opens : first c = true)
    (included : part c = true) :
    IsRun first part (c :: (run kind part cs).text) (run kind part cs).rest where
  opens := ⟨c, rfl, opens⟩
  parts := by
    rintro d (_ | ⟨_, taken⟩)
    · exact included
    · exact List.mem_takeWhile_imp taken
  maximal d next := by
    have := List.head?_dropWhile_not part cs
    rw [show cs.dropWhile part = (run kind part cs).rest from rfl, next] at this
    simpa using this

/-- A body between quotes is read up to the quote behind it. -/
theorem quoted_escapes (quoted' : IsQuote quote) (read : Escapes (PlainInLine quote) body text) :
    quoted quote (body ++ quote :: rest) = ⟨.stringLiteral, text, body ++ [quote], rest⟩ := by
  have mark : quote ≠ '\\' ∧ quote ≠ '\n' := by
    rcases quoted' with rfl | rfl <;> decide
  induction read with
  | nil =>
    rw [List.nil_append, quoted.eq_def]
    split <;> simp_all
  | escaped more ih =>
    rw [List.cons_append, List.cons_append, quoted, ih]
    rfl
  | @plain c body text own more ih =>
    obtain ⟨other, backslash, feed⟩ := own
    rw [List.cons_append, quoted.eq_def]
    split <;> simp_all [prepend]

/-- What is read after a quote is a body with its closing quote, or a body that a line feed or the
end of the text cuts off, perhaps behind a backslash. -/
theorem quoted_cases (quote : Char) (cs : List Char) :
    ∃ body, Escapes (PlainInLine quote) body (quoted quote cs).text ∧
      ((quoted quote cs).kind = .stringLiteral ∧ (quoted quote cs).spelling = body ++ [quote] ∨
        (quoted quote cs).kind = .unknown ∧ ∃ tail, (quoted quote cs).spelling = body ++ tail ∧
          (tail = [] ∨ tail = ['\\'] ∧ (quoted quote cs).rest = [])) := by
  fun_induction quoted quote cs with
  | case1 => exact ⟨[], .nil, .inr ⟨rfl, [], rfl, .inl rfl⟩⟩
  | case2 => exact ⟨[], .nil, .inr ⟨rfl, [], rfl, .inl rfl⟩⟩
  | case3 => exact ⟨[], .nil, .inr ⟨rfl, ['\\'], rfl, .inr ⟨rfl, rfl⟩⟩⟩
  | case4 c cs ih =>
    obtain ⟨body, read, shape⟩ := ih
    exact ⟨'\\' :: c :: body, .escaped read, by simpa [prepend] using shape⟩
  | case5 => exact ⟨[], .nil, .inl ⟨rfl, rfl⟩⟩
  | case6 c cs feed last escape other ih =>
    obtain ⟨body, read, shape⟩ := ih
    have backslash : c ≠ '\\' := by
      rintro rfl
      cases cs with
      | nil => exact last rfl rfl
      | cons d cs => exact escape d cs rfl rfl
    exact ⟨c :: body, .plain ⟨other, backslash, feed⟩ read, by simpa [prepend] using shape⟩

/-- What is read after an at sign and a quote is a text with its quotes doubled and a single quote,
or the whole text if all its quotes are doubled. -/
theorem atQuoted_cases (cs : List Char) :
    ((atQuoted cs).kind = .atStringLiteral ∧
        (atQuoted cs).spelling = doubled (atQuoted cs).text ++ ['\x22'] ∧
        (atQuoted cs).rest.head? ≠ some '\x22') ∨
      ((atQuoted cs).kind = .unknown ∧ (atQuoted cs).spelling = doubled (atQuoted cs).text ∧
        (atQuoted cs).rest = []) := by
  fun_induction atQuoted cs with
  | case1 => exact .inr ⟨rfl, rfl, rfl⟩
  | case2 cs ih => simpa [prepend, doubled] using ih
  | case3 cs single =>
    refine .inl ⟨rfl, rfl, ?_⟩
    cases cs with
    | nil =>
      intro wrong
      cases wrong
    | cons d cs =>
      rintro ⟨⟩
      exact single cs rfl
  | case4 c cs pair other ih =>
    have plain : c ≠ '\x22' := by
      rintro rfl
      exact other rfl
    simpa [prepend, doubled, plain] using ih

/-- What is read after a bracket, inside a number of inner pairs, closes them and the bracket, or it
is the whole text. -/
theorem bracketed_cases (depth : Nat) (cs : List Char) :
    ((bracketed depth cs).kind = .selectorParameter ∧ Closes depth (bracketed depth cs).text ∧
        (bracketed depth cs).spelling = (bracketed depth cs).text ++ [']']) ∨
      ((bracketed depth cs).kind = .unknown ∧
        (bracketed depth cs).spelling = (bracketed depth cs).text ∧
        (bracketed depth cs).rest = []) := by
  fun_induction bracketed depth cs with
  | case1 => exact .inr ⟨rfl, rfl, rfl⟩
  | case2 => exact .inl ⟨rfl, .balanced .nil, rfl⟩
  | case3 depth cs ih =>
    refine ih.imp ?_ ?_
    · rintro ⟨kind, closes, spelled⟩
      exact ⟨kind, .close .nil closes, by simp [prepend, spelled]⟩
    · simp +contextual [prepend]
  | case4 depth cs ih =>
    refine ih.imp ?_ ?_
    · rintro ⟨kind, closes, spelled⟩
      exact ⟨kind, closes.nested, by simp [prepend, spelled]⟩
    · simp +contextual [prepend]
  | case5 depth c cs last closing opening ih =>
    have plain : c ≠ '[' ∧ c ≠ ']' := by
      refine ⟨opening, fun closes => ?_⟩
      cases depth with
      | zero => exact last rfl closes
      | succ depth => exact closing depth rfl closes
    refine ih.imp ?_ ?_
    · rintro ⟨kind, closes, spelled⟩
      exact ⟨kind, closes.other plain, by simp [prepend, spelled]⟩
    · simp +contextual [prepend]

private theorem decodes_quoted (mark : IsQuote quote) :
    Decodes dialect PlainInLine (quoted quote cs).kind (quoted quote cs).text
      (quote :: (quoted quote cs).spelling) (quoted quote cs).rest := by
  have whole := quoted_append quote cs
  obtain ⟨body, read, ⟨kind, spelled⟩ | ⟨kind, tail, spelled, cut⟩⟩ := quoted_cases quote cs
  · rw [kind, spelled]
    exact .stringLiteral mark read
  · rw [kind, spelled]
    refine .openString mark read cut ?_
    rw [← spelled, whole]
    rintro ⟨other, text, after, escapes, rfl⟩
    rw [quoted_escapes mark escapes] at kind
    cases kind

private theorem decodes_afterAt :
    Decodes dialect PlainInLine (afterAt dialect cs).kind (afterAt dialect cs).text
      ('@' :: (afterAt dialect cs).spelling) (afterAt dialect cs).rest := by
  unfold afterAt
  split
  · rename_i cs
    have whole := atQuoted_append cs
    simp only [prepend, List.nil_append, List.singleton_append]
    rcases atQuoted_cases cs with ⟨kind, spelled, single⟩ | ⟨kind, spelled, last⟩
    · rw [kind, spelled]
      exact .atStringLiteral single
    · rw [kind, spelled, last]
      refine .openAtString ?_
      rw [← spelled, ← List.append_nil (atQuoted cs).spelling, ← last, whole]
      rintro ⟨text, after, rfl, single⟩
      rw [atQuoted_doubled single] at kind
      cases kind
  · rename_i c cs mark
    split
    · rename_i start
      have part := isPart_of_isStart start
      have same : run .directive dialect.isPart (c :: cs) =
          (run .directive dialect.isPart cs).prepend [c] [c] := by
        simp [run, prepend, part]
      rw [same]
      exact .directive (isRun_run start part)
    · rename_i start
      refine .loneAt ?_
      rintro d ⟨⟩
      exact ⟨fun quote => mark quote, Bool.eq_false_iff.mpr start⟩
  · refine .loneAt fun d member => ?_
    cases member

private theorem decodes_bracketed :
    Decodes dialect PlainInLine (bracketed 0 cs).kind (Text.trim (bracketed 0 cs).text)
      ('[' :: (bracketed 0 cs).spelling) (bracketed 0 cs).rest := by
  have whole := bracketed_append 0 cs
  rcases bracketed_cases 0 cs with ⟨kind, closes, spelled⟩ | ⟨kind, spelled, last⟩
  · obtain ⟨balanced⟩ := closes
    rw [kind, spelled]
    exact .selectorParameter balanced
  · rw [kind, spelled, last]
    refine .openParameter ?_
    rw [← spelled, ← List.append_nil (bracketed 0 cs).spelling, ← last, whole]
    rintro ⟨body, after, balanced, rfl⟩
    rw [bracketed_balanced balanced] at kind
    cases kind

/-- What is read at a character that is not blank follows the rules of its class. -/
theorem decodes_read (visible : Text.isBlank c = false) :
    Decodes dialect PlainInLine (read dialect c cs).kind (read dialect c cs).text
      (read dialect c cs).spelling (read dialect c cs).rest := by
  unfold read
  split
  · exact decodes_quoted ‹_›
  split
  · rename_i sign
    subst sign
    exact decodes_afterAt
  split
  · rename_i bracket
    subst bracket
    exact decodes_bracketed
  split
  · exact .single ‹_›
  split
  · exact .identifier (isRun_run ‹_› (isPart_of_isStart ‹_›))
  split
  · rename_i digit
    refine .numericLiteral (isRun_run digit ?_)
    simp [isNumberPart, digit]
  split
  · refine .symbol ‹_› ?_
    simp_all
  · refine .unclassified visible ?_
    simp_all

end Lexeme

private theorem append_inj_of_utf8Len {first second rest other : List Char}
    (whole : first ++ rest = second ++ other) (size : utf8Len first = utf8Len second) :
    first = second ∧ rest = other := by
  rcases List.append_eq_append_iff.mp whole with ⟨more, rfl, rfl⟩ | ⟨more, rfl, rfl⟩
  all_goals
    rw [String.utf8Len_append] at size
    have none : more = [] := String.utf8Len_eq_zero.mp (by omega)
    simp [none]

private theorem Decodes.endless {dialect : Dialect} {plain : Char → Char → Prop} {quote c : Char}
    {text spelling more rest : List Char}
    (decodes : Decodes dialect plain .unknown text spelling rest)
    (begun : spelling = quote :: c :: more) (mark : IsQuote quote) :
    ¬ EndsString (plain quote) quote (c :: more ++ rest) := by
  cases decodes with
  | single => cases begun
  | unclassified => cases begun
  | loneAt => cases begun
  | openString _ _ _ endless =>
    obtain ⟨rfl, whole⟩ := List.cons.inj begun
    rwa [whole] at endless
  | openAtString =>
    obtain ⟨rfl, -⟩ := List.cons.inj begun
    exact absurd mark (by decide)
  | openParameter =>
    obtain ⟨rfl, -⟩ := List.cons.inj begun
    exact absurd mark (by decide)

/-- Every token of a text says what its slice of the text stands for by the rules of its class. -/
theorem tokens_decode (dialect : Dialect) (text : String) {token : Token}
    (member : token ∈ Token.ofText dialect text) :
    token.IsDecoded dialect PlainInLine text.toList := by
  obtain ⟨ahead, c, after, split, visible, read⟩ := (lexed_ofText dialect text).exists_isRead member
  refine ⟨ahead, (Lexeme.read dialect c after).spelling, (Lexeme.read dialect c after).rest, ?_, ?_,
    ?_⟩
  · rw [split, List.append_assoc, Lexeme.read_append]
  · exact read.covers
  · rw [read.kind, read.text, String.toList_ofList]
    exact Lexeme.decodes_read visible

theorem tokens_decode_nested :
    (⟨.selectorParameter, "a[b]", 1, 9, 1, 2⟩ : Token) ∈ Token.ofText .hyphenated "r[ a[b] ]" ∧
      Token.IsDecoded ⟨.selectorParameter, "a[b]", 1, 9, 1, 2⟩ .hyphenated PlainInLine
        "r[ a[b] ]".toList := by
  have tokens : Token.ofText .hyphenated "r[ a[b] ]" =
      [⟨.identifier, "r", 0, 1, 1, 1⟩, ⟨.selectorParameter, "a[b]", 1, 9, 1, 2⟩] := by
    decide +kernel
  have member : (⟨.selectorParameter, "a[b]", 1, 9, 1, 2⟩ : Token) ∈
      Token.ofText .hyphenated "r[ a[b] ]" := by
    simp [tokens]
  exact ⟨member, tokens_decode _ _ member⟩

/-- A line feed does not stand for itself between quotes: what begins with a quote is unknown if a
line feed comes before the next quote. -/
theorem not_decoded_across_feed :
    ¬ ∀ token ∈ Token.ofText .standard "\"a\nb\"",
      token.IsDecoded .standard (fun quote c => c ≠ quote ∧ c ≠ '\\') "\"a\nb\"".toList := by
  have tokens : Token.ofText .standard "\"a\nb\"" =
      [⟨.unknown, "a", 0, 2, 1, 1⟩, ⟨.identifier, "b", 3, 4, 2, 1⟩,
        ⟨.unknown, "", 4, 5, 2, 2⟩] := by
    decide +kernel
  intro decoded
  obtain ⟨before, spelling, rest, whole, covers, decodes⟩ :=
    decoded ⟨.unknown, "a", 0, 2, 1, 1⟩ (by simp [tokens])
  have start : before = [] := String.utf8Len_eq_zero.mp covers.start.symm
  subst start
  have whole : ['\x22', 'a'] ++ ['\n', 'b', '\x22'] = spelling ++ rest := whole
  have size : utf8Len ['\x22', 'a'] = utf8Len spelling := covers.stop
  obtain ⟨rfl, rfl⟩ := append_inj_of_utf8Len whole size
  refine decodes.endless rfl (.inl rfl) ⟨['a', '\n', 'b'], ['a', '\n', 'b'], [], ?_, rfl⟩
  exact .plain (by decide) (.plain (by decide) (.plain (by decide) .nil))

end PackageSheet
