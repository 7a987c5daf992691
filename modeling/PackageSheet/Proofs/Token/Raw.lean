import PackageSheet.Proofs.Token.Spelling

/-!
The tokens of raw texts: letters, digits and the marks of paths and patterns, in front of a semicolon. Of
these marks two begin a comment, a slash in front of a slash or a star, so a raw text may begin with a
comment, end in one, or leave one open. If it leaves none open, then its tokens are names, numbers, dots
and symbols, from the end of the comments at its start to the start of those at its end (`Lexed.raw`).
-/

namespace PackageSheet

open String (utf8Len)

def TokenKind.isRaw : TokenKind → Bool
  | .identifier | .numericLiteral | .dot | .symbol => true
  | _ => false

namespace Raw

/-- Whether a character is a letter or digit of ASCII or a mark of paths and patterns. -/
def isRaw (c : Char) : Bool :=
  c.toNat < 0x80 && (Text.isLetter c || Text.isDigit c) || ['_', '-', '.', '/', '*', '?'].contains c

/-- A comment opens at the start of a text. -/
def OpensComment (cs : List Char) : Prop :=
  ['/', '/'] <+: cs ∨ ['/', '*'] <+: cs

instance : DecidablePred OpensComment :=
  fun _ => inferInstanceAs (Decidable (_ ∨ _))

/-- A text without line feeds ends in a comment, be it open or closed. -/
inductive EndsInComment : List Char → Prop where
  | line (body : List Char) : EndsInComment ('/' :: '/' :: body)
  | openBlock {body : List Char} (inside : ¬ Gap.blockEnd <:+: body) :
      EndsInComment ('/' :: '*' :: body)
  | lastBlock {body : List Char} (inside : ¬ Gap.blockEnd <:+: body) :
      EndsInComment ('/' :: '*' :: (body ++ Gap.blockEnd))
  | block {body cs : List Char} (inside : ¬ Gap.blockEnd <:+: body) (rest : EndsInComment cs) :
      EndsInComment ('/' :: '*' :: (body ++ Gap.blockEnd ++ cs))
  | char {c : Char} {cs : List Char} (plain : ¬ OpensComment (c :: cs)) (rest : EndsInComment cs) :
      EndsInComment (c :: cs)

/-- A text that neither begins with a comment nor ends in one. -/
structure IsVerbatim (cs : List Char) : Prop where
  begins : ¬ OpensComment cs
  ends : ¬ EndsInComment cs

variable {c : Char} {cs rest body more others : List Char}

/-! ### Comments in a text -/

theorem opensComment_cons_iff :
    OpensComment (c :: cs) ↔ c = '/' ∧ (cs.head? = some '/' ∨ cs.head? = some '*') := by
  cases cs <;> simp [OpensComment, List.cons_prefix_cons, eq_comm, and_or_left]

private theorem not_opensComment_append (plain : ¬ OpensComment (c :: cs)) :
    ¬ OpensComment (c :: (cs ++ ';' :: rest)) := by
  rw [opensComment_cons_iff] at plain ⊢
  cases cs with
  | nil => simp
  | cons d cs => exact plain

private theorem comment_cases (cs : List Char) :
    ¬ OpensComment cs ∨ (∃ body, cs = '/' :: '/' :: body) ∨
      (∃ body, cs = '/' :: '*' :: body ∧ ¬ Gap.blockEnd <:+: body) ∨
      ∃ body more, cs = '/' :: '*' :: (body ++ Gap.blockEnd ++ more) ∧ ¬ Gap.blockEnd <:+: body := by
  by_cases opens : OpensComment cs
  · rcases opens with ⟨body, rfl⟩ | ⟨text, rfl⟩
    · exact .inr (.inl ⟨body, rfl⟩)
    · have whole := Gap.split_append .blockComment text
      rcases Gap.continues_split .blockComment text with ⟨body, after, block, inside, -⟩ | ⟨last, inside⟩
      · refine .inr (.inr (.inr ⟨body, after ++ (Gap.blockComment.split text).2, ?_, inside⟩))
        rw [block] at whole
        rw [← List.append_assoc, whole]
        rfl
      · rw [last, List.append_nil] at whole
        rw [whole] at inside
        exact .inr (.inr (.inl ⟨text, rfl, inside⟩))
  · exact .inl opens

private theorem block_inj (inside : ¬ Gap.blockEnd <:+: body) (within : ¬ Gap.blockEnd <:+: others)
    (same : body ++ Gap.blockEnd ++ cs = others ++ Gap.blockEnd ++ more) : cs = more := by
  induction body generalizing others with
  | nil =>
    match others with
    | [] => simpa using same
    | [d] => simp [Gap.blockEnd] at same
    | d :: e :: others =>
      obtain ⟨star, slash, -⟩ : '*' = d ∧ '/' = e ∧ _ := by simpa [Gap.blockEnd] using same
      exact absurd ⟨[], others, by simp [Gap.blockEnd, ← star, ← slash]⟩ within
  | cons d body ih =>
    match others with
    | [] =>
      match body with
      | [] => simp [Gap.blockEnd] at same
      | e :: body =>
        obtain ⟨star, slash, -⟩ : d = '*' ∧ e = '/' ∧ _ := by simpa [Gap.blockEnd] using same
        exact absurd ⟨[], body, by simp [Gap.blockEnd, star, slash]⟩ inside
    | e :: others =>
      rw [List.infix_cons_iff, not_or] at inside within
      exact ih inside.2 within.2 (List.cons.inj same).2

theorem not_endsInComment_nil : ¬ EndsInComment [] := nofun

theorem endsInComment_cons_iff (plain : ¬ OpensComment (c :: cs)) :
    EndsInComment (c :: cs) ↔ EndsInComment cs := by
  constructor
  · intro ends
    cases ends with
    | line | openBlock | lastBlock | block => simp [OpensComment] at plain
    | char _ rest => exact rest
  · exact .char plain

theorem endsInComment_append_iff (free : '/' ∉ body) :
    EndsInComment (body ++ cs) ↔ EndsInComment cs := by
  induction body with
  | nil => rfl
  | cons c body ih =>
    obtain ⟨other, free⟩ := List.ne_and_not_mem_of_not_mem_cons free
    have plain : ¬ OpensComment (c :: (body ++ cs)) := by
      rw [opensComment_cons_iff]
      exact fun opens => other opens.1.symm
    rw [List.cons_append, endsInComment_cons_iff plain, ih free]

theorem endsInComment_block_iff (inside : ¬ Gap.blockEnd <:+: body) :
    EndsInComment ('/' :: '*' :: (body ++ Gap.blockEnd ++ cs)) ↔ cs = [] ∨ EndsInComment cs := by
  constructor
  · intro ends
    generalize text : '/' :: '*' :: (body ++ Gap.blockEnd ++ cs) = whole at ends
    cases ends with
    | line => simp at text
    | openBlock open' =>
      obtain rfl : body ++ Gap.blockEnd ++ cs = _ := by simpa using text
      exact absurd ⟨body, cs, rfl⟩ open'
    | @lastBlock other within =>
      have same : body ++ Gap.blockEnd ++ cs = other ++ Gap.blockEnd ++ [] := by simpa using text
      exact .inl (block_inj inside within same)
    | @block other after within rest =>
      have same : body ++ Gap.blockEnd ++ cs = other ++ Gap.blockEnd ++ after := by simpa using text
      exact .inr (block_inj inside within same ▸ rest)
    | char plain =>
      obtain ⟨rfl, rfl⟩ := List.cons.inj text
      simp [OpensComment] at plain
  · rintro (rfl | rest)
    · rw [List.append_nil]
      exact .lastBlock inside
    · exact .block inside rest

theorem isVerbatim_of_not_infix (line : ¬ ['/', '/'] <:+: cs) (block : ¬ ['/', '*'] <:+: cs) :
    IsVerbatim cs := by
  refine ⟨not_or.mpr ⟨fun opens => line opens.isInfix, fun opens => block opens.isInfix⟩, ?_⟩
  intro ends
  induction ends with
  | line body => exact line ⟨[], body, rfl⟩
  | openBlock | lastBlock | block => exact block ⟨[], _, rfl⟩
  | char plain rest ih =>
    rw [List.infix_cons_iff, not_or] at line block
    exact ih line.2 block.2

/-! ### Characters of raw texts -/

/-- What can be checked for all characters of ASCII holds of those of raw texts. -/
theorem of_isRaw {p : Char → Prop}
    (ascii : ∀ n < 128, isRaw (Char.ofNat n) = true → p (Char.ofNat n)) (raw : isRaw c = true) : p c := by
  have small : c.toNat < 128 := by
    simp only [isRaw, Bool.or_eq_true, Bool.and_eq_true, decide_eq_true_eq, List.contains_iff_mem,
      List.mem_cons, List.not_mem_nil, or_false] at raw
    rcases raw with ⟨ascii, -⟩ | rfl | rfl | rfl | rfl | rfl | rfl
    · exact ascii
    all_goals decide
  have own := ascii c.toNat small
  rw [Char.ofNat_toNat] at own
  exact own raw

theorem isBlank_of_isRaw (raw : isRaw c = true) : Text.isBlank c = false :=
  of_isRaw (p := fun c => Text.isBlank c = false) (by decide) raw

private theorem ne_feed_of_isRaw (raw : isRaw c = true) : c ≠ '\n' :=
  of_isRaw (p := (· ≠ '\n')) (by decide) raw

theorem utf8Len_of_isRaw (raw : ∀ c ∈ cs, isRaw c = true) : utf8Len cs = cs.length := by
  induction cs with
  | nil => rfl
  | cons c cs ih =>
    obtain ⟨own, others⟩ := List.forall_mem_cons.mp raw
    have size : c.utf8Size = 1 := of_isRaw (p := fun c => c.utf8Size = 1) (by decide) own
    rw [String.utf8Len_cons, ih others, size, List.length_cons]

/-! ### What a raw text begins with -/

end Raw

private theorem Gap.split_of_plain {c : Char} {cs : List Char} (visible : Text.isBlank c = false)
    (plain : ¬ Raw.OpensComment (c :: cs)) : Gap.blank.split (c :: cs) = ([], c :: cs) := by
  rw [Raw.opensComment_cons_iff] at plain
  rw [Gap.split.eq_def]
  split <;> simp_all

namespace Raw

/-- What is skipped at the start of a raw text in front of a semicolon: all of it, what stands in front
of a visible character, or, if a comment is left open, all up to where that ends behind the semicolon. -/
inductive Start (rest cs : List Char) : Prop where
  | ended (skipped : Gap.blank.split (cs ++ ';' :: rest) = (cs, ';' :: rest))
      (hidden : cs = [] ∨ EndsInComment cs) : Start rest cs
  | visible {gap more : List Char} {c : Char} (whole : cs = gap ++ c :: more)
      (skipped : Gap.blank.split (cs ++ ';' :: rest) = (gap, c :: (more ++ ';' :: rest)))
      (begins : gap = [] ↔ ¬ OpensComment cs) (ends : EndsInComment cs ↔ EndsInComment more) :
      Start rest cs
  | opened (hidden : EndsInComment cs)
      (lost : '\n' ∉ rest → ¬ Gap.blockEnd <:+: rest → (Gap.blank.split (cs ++ ';' :: rest)).2 = []) :
      Start rest cs

private theorem start_line (raw : ∀ c ∈ '/' :: '/' :: body, isRaw c = true) :
    Start rest ('/' :: '/' :: body) := by
  refine .opened (.line body) fun line _ => ?_
  have free : '\n' ∉ body ++ ';' :: rest := by
    simp only [List.mem_append, List.mem_cons, not_or]
    refine ⟨fun member => ?_, by decide, line⟩
    exact ne_feed_of_isRaw (raw '\n' (List.mem_cons_of_mem _ (List.mem_cons_of_mem _ member))) rfl
  have whole := Gap.split_append .lineComment (body ++ ';' :: rest)
  obtain ⟨inner, after, skipped, -, ended, -⟩ := Gap.continues_split .lineComment (body ++ ';' :: rest)
  rcases ended with feed | ⟨last, -⟩
  · obtain ⟨more, rfl⟩ := List.head?_eq_some_iff.mp feed
    rw [skipped] at whole
    exact absurd (whole ▸ by simp) free
  · exact last

private theorem start_openBlock (inside : ¬ Gap.blockEnd <:+: body) :
    Start rest ('/' :: '*' :: body) := by
  refine .opened (.openBlock inside) fun _ block => ?_
  have free : ¬ Gap.blockEnd <:+: body ++ ';' :: rest := by
    induction body with
    | nil => simpa [List.infix_cons_iff, Gap.blockEnd] using block
    | cons c body ih =>
      rw [List.infix_cons_iff, not_or] at inside
      rw [List.cons_append, List.infix_cons_iff, not_or]
      refine ⟨fun first => inside.1 ?_, ih inside.2⟩
      cases body with
      | nil => simp [Gap.blockEnd, List.cons_prefix_cons] at first
      | cons d body => simpa [Gap.blockEnd, List.cons_prefix_cons] using first
  have whole := Gap.split_append .blockComment (body ++ ';' :: rest)
  rcases Gap.continues_split .blockComment (body ++ ';' :: rest) with
    ⟨inner, after, skipped, -⟩ | ⟨last, -⟩
  · rw [skipped] at whole
    exact absurd ⟨inner, _, (List.append_assoc ..).symm.trans whole⟩ free
  · exact last

private theorem Start.behind_block (inside : ¬ Gap.blockEnd <:+: body) (start : Start rest more) :
    Start rest ('/' :: '*' :: (body ++ Gap.blockEnd ++ more)) := by
  have trivia : Trivia False ('/' :: '*' :: (body ++ Gap.blockEnd)) := by
    have block := @Trivia.blockComment False body [] inside .nil
    rwa [List.append_nil] at block
  have skips := trivia.split_append (more ++ ';' :: rest)
  have text : '/' :: '*' :: (body ++ Gap.blockEnd) ++ (more ++ ';' :: rest) =
      '/' :: '*' :: (body ++ Gap.blockEnd ++ more) ++ ';' :: rest := by simp
  rw [text] at skips
  have opens : OpensComment ('/' :: '*' :: (body ++ Gap.blockEnd ++ more)) := .inr ⟨_, rfl⟩
  cases start with
  | ended skipped hidden =>
    refine .ended ?_ (.inr ((endsInComment_block_iff inside).mpr hidden))
    rw [skips, skipped]
    simp
  | @visible gap others c whole skipped begins ends =>
    have split : '/' :: '*' :: (body ++ Gap.blockEnd ++ more) =
        '/' :: '*' :: (body ++ Gap.blockEnd ++ gap) ++ c :: others := by simp [whole]
    refine .visible split ?_ (iff_of_false (List.cons_ne_nil _ _) (not_not_intro opens)) ?_
    · rw [skips, skipped]
      simp
    · rw [endsInComment_block_iff inside, ← ends, or_iff_right]
      simp [whole]
  | opened hidden lost =>
    refine .opened (.block inside hidden) fun line block => ?_
    rw [skips]
    exact lost line block

private theorem start (raw : ∀ c ∈ cs, isRaw c = true) (rest : List Char) : Start rest cs := by
  induction length : cs.length using Nat.strong_induction_on generalizing cs with
  | _ n ih =>
    rcases comment_cases cs with plain | ⟨body, rfl⟩ | ⟨body, rfl, inside⟩ | ⟨body, more, rfl, inside⟩
    · cases cs with
      | nil => exact .ended rfl (.inl rfl)
      | cons c cs =>
        have visible := isBlank_of_isRaw (raw c List.mem_cons_self)
        exact .visible (List.nil_append _).symm
          (Gap.split_of_plain visible (not_opensComment_append plain)) (iff_of_true rfl plain)
          (endsInComment_cons_iff plain)
    · exact start_line raw
    · exact start_openBlock inside
    · refine .behind_block inside (ih more.length ?_ (fun c member => raw c ?_) rfl)
      · rw [← length]
        simp
        omega
      · simp [member]

/-! ### The tokens of a raw text -/

private theorem read_raw (raw : ∀ d ∈ c :: cs, isRaw d = true) (rest : List Char) :
    ∃ kind taken left, cs = taken ++ left ∧ '/' ∉ taken ∧ TokenKind.isRaw kind = true ∧
      Lexeme.read .hyphenated c (cs ++ ';' :: rest) =
        ⟨kind, c :: taken, c :: taken, left ++ ';' :: rest⟩ := by
  have runs (kind : TokenKind) (p : Char → Bool) (semicolon : p ';' = false) :
      Lexeme.run kind p (cs ++ ';' :: rest) =
        ⟨kind, cs.takeWhile p, cs.takeWhile p, cs.dropWhile p ++ ';' :: rest⟩ := by
    have stop : ∀ d ∈ (cs.dropWhile p ++ ';' :: rest).head?, p d = false := by
      intro d first
      have head := List.head?_dropWhile_not p cs
      cases left : cs.dropWhile p with
      | nil =>
        rw [left] at first
        exact Option.some.inj first ▸ semicolon
      | cons e left => simp_all
    have run := @Lexeme.run_append_of (cs.takeWhile p) (cs.dropWhile p ++ ';' :: rest) kind p
      (fun d member => List.mem_takeWhile_imp member) stop
    rwa [← List.append_assoc, List.takeWhile_append_dropWhile] at run
  have free (p : Char → Bool) (slash : p '/' = false) : '/' ∉ cs.takeWhile p := by
    intro member
    rw [List.mem_takeWhile_imp member] at slash
    cases slash
  have whole (p : Char → Bool) := (List.takeWhile_append_dropWhile (p := p) (l := cs)).symm
  have kinds := of_isRaw (p := fun c => c = '.' ∨ Dialect.hyphenated.isStart c = true ∨
      (¬ (c = '\x22' ∨ c = '\x27') ∧ c ≠ '@' ∧ c ≠ '[' ∧ Lexeme.single? c = none ∧
        ¬ Dialect.hyphenated.isStart c = true) ∧ (Text.isDigit c = true ∨
          ¬ Text.isDigit c = true ∧ Text.isPunctuation c = true))
    (by decide) (raw c List.mem_cons_self)
  rcases kinds with rfl | start | ⟨⟨quote, sign, bracket, single, start⟩, digit | ⟨digit, mark⟩⟩
  · exact ⟨.dot, [], cs, rfl, List.not_mem_nil, rfl, Lexeme.read_single rfl⟩
  · refine ⟨.identifier, _, _, whole Dialect.hyphenated.isPart, free _ (by decide), rfl, ?_⟩
    rw [Lexeme.read_of_isStart start, runs _ _ (by decide)]
    rfl
  · refine ⟨.numericLiteral, _, _, whole Lexeme.isNumberPart, free _ (by decide), rfl, ?_⟩
    rw [Lexeme.read, if_neg quote, if_neg sign, if_neg bracket, single]
    dsimp only
    rw [if_neg start, if_pos digit, runs _ _ (by decide)]
    rfl
  · refine ⟨.symbol, [], cs, rfl, List.not_mem_nil, rfl, ?_⟩
    rw [Lexeme.read, if_neg quote, if_neg sign, if_neg bracket, single]
    dsimp only
    rw [if_neg start, if_neg digit, if_pos mark]

/-- The tokens of a raw text behind some text. The first one begins where the comments at the start of
the text end, and the last one ends where those at its end begin. -/
structure IsSpan (before cs : List Char) (tokens : List Token) : Prop where
  raw : ∀ t ∈ tokens, t.kind.isRaw = true
  begins : ∀ t ∈ tokens.head?, ∃ gap, gap <+: cs ∧ t.start = utf8Len (before ++ gap) ∧
    (gap = [] ↔ ¬ OpensComment cs)
  ends : ∃ front back, cs = front ++ back ∧ (back = [] ↔ ¬ EndsInComment cs) ∧
    (tokens = [] → front = []) ∧ ∀ t ∈ tokens.getLast?, t.stop = utf8Len (before ++ front)

variable {before : List Char} {tokens : List Token}

private theorem isSpan_nil (hidden : cs = [] ∨ EndsInComment cs) : IsSpan before cs [] where
  raw := nofun
  begins := nofun
  ends := by
    refine ⟨[], cs, rfl, ?_, fun _ => rfl, nofun⟩
    rcases hidden with rfl | hidden
    · exact iff_of_true rfl not_endsInComment_nil
    · refine iff_of_false ?_ (not_not_intro hidden)
      rintro rfl
      exact not_endsInComment_nil hidden

private theorem IsSpan.cons {gap taken left : List Char} {t : Token}
    (whole : cs = gap ++ c :: (taken ++ left))
    (kind : t.kind.isRaw = true) (covers : t.Covers (before ++ gap) (c :: taken))
    (begins : gap = [] ↔ ¬ OpensComment cs) (ends : EndsInComment cs ↔ EndsInComment left)
    (span : IsSpan (before ++ gap ++ c :: taken) left tokens) : IsSpan before cs (t :: tokens) where
  raw := List.forall_mem_cons.mpr ⟨kind, span.raw⟩
  begins := by
    rintro _ ⟨⟩
    exact ⟨gap, ⟨_, whole.symm⟩, covers.start, begins⟩
  ends := by
    obtain ⟨front, back, split, last, none, stop⟩ := span.ends
    refine ⟨gap ++ c :: (taken ++ front), back, by simp [whole, split],
      last.trans (not_congr ends.symm), nofun, ?_⟩
    intro u final
    cases tokens with
    | nil =>
      obtain rfl : t = u := Option.some.inj final
      rw [covers.stop, none rfl]
      simp
    | cons next tokens =>
      rw [List.getLast?_cons_cons] at final
      rw [stop u final]
      simp

end Raw

open Raw

/-- The tokens of a raw text in front of a semicolon come first, and then the semicolon, unless the text
leaves a comment open: then all tokens are raw, if nothing behind the semicolon ends the comment. -/
theorem Lexed.raw {before cs rest : List Char} {tokens : List Token}
    (raw : ∀ c ∈ cs, isRaw c = true) (lexed : Lexed .hyphenated before (cs ++ ';' :: rest) tokens) :
    (∃ span semicolon others, tokens = span ++ semicolon :: others ∧ IsSpan before cs span ∧
      semicolon.kind = .semicolon ∧ Lexed .hyphenated (before ++ cs ++ [';']) rest others) ∨
    EndsInComment cs ∧ ('\n' ∉ rest → ¬ Gap.blockEnd <:+: rest → ∀ t ∈ tokens, t.kind.isRaw = true) := by
  generalize text : cs ++ ';' :: rest = whole at lexed
  induction lexed generalizing cs with
  | done skipped =>
    subst text
    cases Raw.start raw rest with
    | ended found => cases found.symm.trans skipped
    | visible _ found => cases found.symm.trans skipped
    | opened hidden => exact .inr ⟨hidden, fun _ _ => nofun⟩
  | @token before _ gap after c token tokens skipped read lexed ih =>
    subst text
    cases Raw.start raw rest with
    | ended found hidden =>
      cases found.symm.trans skipped
      have single := @Lexeme.read_single .hyphenated ';' rest _ rfl
      rw [single] at lexed
      refine .inl ⟨[], token, tokens, rfl, isSpan_nil hidden, ?_, lexed⟩
      rw [read.kind, single]
    | @visible gap more c whole found begins ends =>
      cases found.symm.trans skipped
      have own : ∀ d ∈ c :: more, isRaw d = true := fun d member =>
        raw d (whole ▸ List.mem_append_right gap member)
      obtain ⟨kind, taken, left, rfl, free, known, same⟩ := read_raw own rest
      obtain ⟨kinds, -, covers⟩ := read
      rw [same] at kinds covers lexed ih
      rw [endsInComment_append_iff free] at ends
      have later : ∀ d ∈ left, isRaw d = true := fun d member => own d (by simp [member])
      have isRaw : token.kind.isRaw = true := kinds ▸ known
      rcases ih later rfl with ⟨span, semicolon, others, rfl, tokens, kind, rest⟩ | ⟨hidden, lost⟩
      · refine .inl ⟨token :: span, semicolon, others, rfl,
          tokens.cons whole isRaw covers begins ends, kind, ?_⟩
        rw [whole]
        simpa using rest
      · exact .inr ⟨ends.mpr hidden, fun line block =>
          List.forall_mem_cons.mpr ⟨isRaw, lost line block⟩⟩
    | opened hidden lost =>
      refine .inr ⟨hidden, fun line block => ?_⟩
      rw [skipped] at lost
      cases lost line block

end PackageSheet
