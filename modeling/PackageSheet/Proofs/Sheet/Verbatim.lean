import PackageSheet.Proofs.Sheet.Omission
import PackageSheet.Proofs.Token.Raw

/-!
Raw values. A rule whose only value is a raw text is read with this text for its value exactly if the
text neither begins with a comment nor ends in one (`Statement.ofText_inclusion_iff`); what stands behind
the rule is then read as it is alone. A raw text that leaves a comment open takes the end of the rule with
it, as every pattern for the files of a directory does (`Statement.pattern_opens_comment`).
-/

namespace PackageSheet

open String (utf8Len)

open Grammar Raw

namespace TokenStream

variable {stream : TokenStream} {tokens : List Token} {n : Nat}

private theorem fst_take (n : Nat) (stream : TokenStream) :
    (stream.take n).1 = stream.tokens.take n := by
  induction n generalizing stream with
  | zero => rfl
  | succ n ih =>
    rw [take]
    cases asked : stream.next? with
    | none => rw [tokens_eq_nil asked, List.take_nil]
    | some found =>
      obtain ⟨token, after⟩ := found
      rw [tokens_eq_cons asked, List.take_succ_cons, ← ih]

private theorem tokens_of_take (taken : (stream.take n).1 = tokens) (short : tokens.length < n) :
    stream.tokens = tokens := by
  rw [fst_take] at taken
  have size := congrArg List.length taken
  rw [List.length_take] at size
  rw [← taken, List.take_of_length_le (by omega)]

end TokenStream

namespace Reading

variable {reading : Reading} {before cs rest : List Char} {start stop offset : Nat} {span : List Token}

/-! ### Slices of raw texts -/

private theorem slice_whole (first : start ≤ offset) (last : offset + utf8Len cs ≤ stop) :
    slice start stop offset cs = cs := by
  induction cs generalizing offset with
  | nil => rfl
  | cons c cs ih =>
    have some := c.utf8Size_pos
    rw [String.utf8Len_cons] at last
    rw [slice, if_neg (by omega), if_pos (by omega), ih (by omega) (by omega)]

private theorem length_slice_le : (slice start stop offset cs).length ≤ stop - start ∧
    (slice start stop offset cs).length ≤ stop - offset := by
  induction cs generalizing offset with
  | nil => exact ⟨Nat.zero_le _, Nat.zero_le _⟩
  | cons c cs ih =>
    have some := c.utf8Size_pos
    obtain ⟨all, left⟩ := @ih (offset + c.utf8Size)
    rw [slice]
    split
    · omega
    · split
      · rw [List.length_cons]
        omega
      · exact ⟨Nat.zero_le _, Nat.zero_le _⟩

/-- The value that the tokens of a raw text stand for is this text exactly if it is verbatim: a comment
at either end is left out of the value. -/
theorem valueText_span_iff (source : reading.source = before ++ (cs ++ rest))
    (raw : ∀ c ∈ cs, isRaw c = true) (some : cs ≠ []) (tokens : IsSpan before cs span) :
    reading.valueText span = String.ofList cs ↔ IsVerbatim cs := by
  obtain ⟨front, back, rfl, last, none, stop⟩ := tokens.ends
  cases span with
  | nil =>
    obtain rfl := none rfl
    refine iff_of_false ?_ fun verbatim => some (last.mpr verbatim.ends)
    intro same
    exact some (String.ofList_eq_empty_iff.mp same.symm)
  | cons first span =>
    obtain ⟨final, ended⟩ : ∃ final, (first :: span).getLast? = .some final := ⟨_, List.getLast?_cons⟩
    obtain ⟨gap, inside, begun, opens⟩ := tokens.begins first rfl
    have literals : (first :: span).all Token.isString = false := by
      have kind := tokens.raw first List.mem_cons_self
      have other : first.isString = false := by
        unfold Token.isString
        cases own : first.kind <;> simp_all [TokenKind.isRaw]
      rw [List.all_cons, other, Bool.false_and]
    have value : reading.valueText (first :: span) =
        String.ofList (Text.trim (slice first.start final.stop 0 reading.source)) := by
      unfold valueText
      rw [ended]
      simp [literals]
    rw [value, String.ofList_inj, begun, stop final ended, source]
    simp only [String.utf8Len_append]
    constructor
    · intro same
      have bytes := (@length_slice_le (before ++ (front ++ back ++ rest))
        (utf8Len before + utf8Len gap) (utf8Len before + utf8Len front) 0).1
      have short := (congrArg List.length same).symm.trans_le (Text.trim_isInfix _).length_le
      have size := utf8Len_of_isRaw raw
      have filled := List.length_pos_of_ne_nil some
      rw [String.utf8Len_append] at size
      have nothing : utf8Len gap = 0 ∧ utf8Len back = 0 := by omega
      have sizes (cs : List Char) : utf8Len cs = 0 → cs = [] := String.utf8Len_eq_zero.mp
      exact ⟨opens.mp (sizes gap nothing.1), last.mp (sizes back nothing.2)⟩
    · intro verbatim
      obtain rfl := opens.mpr verbatim.begins
      obtain rfl := last.mpr verbatim.ends
      rw [List.append_nil] at raw ⊢
      have between := @slice_between before front rest 0 (utf8Len front) le_rfl
      rw [slice_whole le_rfl (by omega)] at between
      have blank : ∀ c ∈ front, Text.isBlank c = false := fun c member =>
        isBlank_of_isRaw (raw c member)
      have bare : Text.Bare front := ⟨fun c first => blank c (List.mem_of_mem_head? first),
        fun c last => blank c (List.mem_of_getLast? last)⟩
      exact (congrArg Text.trim between).trans (Text.trim_of_bare bare)

/-! ### The rule around a raw value -/

def headingText : String :=
  "files[a] \x7b include:"

/-- The tokens of this text. -/
def heading : List Token :=
  [⟨.identifier, "files", 0, 5, 1, 1⟩, ⟨.selectorParameter, "a", 5, 8, 1, 6⟩,
    ⟨.openBrace, "\x7b", 9, 10, 1, 10⟩, ⟨.identifier, "include", 11, 18, 1, 12⟩,
    ⟨.colon, ":", 18, 19, 1, 19⟩]

/-- The rule that is read behind the heading, with what some tokens stand for as its only value. -/
def including (reading : Reading) (span : List Token) : PackageSheet.Rule where
  name := "files"
  parameter := some "a"
  properties := [⟨"include", listed (reading.valueText span), ⟨reading.file, 1, 12⟩⟩]
  location := ⟨reading.file, 1, 1⟩

theorem tokens_headingText : Token.ofText .hyphenated headingText = heading :=
  @TokenStream.tokens_of_take _ _ 6 rfl (by decide)

private theorem closed_headingText : Closed .hyphenated headingText.toList :=
  closed_of_ends (tokens_headingText ▸ lexed_ofText .hyphenated headingText)
    ⟨_, rfl, rfl, by decide⟩

variable {final : Prop} {tokens : List Token} {start parameter opening : Token}

private theorem rule_opened (name : start.kind = .identifier) (full : start.text ≠ "")
    (kind : parameter.kind = .selectorParameter) (opens : opening.kind = .openBrace) :
    reading.rule start (parameter :: opening :: tokens) =
      (reading.body { name := start.text, parameter := some parameter.text,
                      location := reading.locate start } tokens).map some := by
  have selected : reading.selector start (parameter :: opening :: tokens) =
      ⟨some { name := start.text, parameter := some parameter.text, location := reading.locate start },
        [], tokens⟩ := by
    have named : isRuleName start = true := by simp [isRuleName, name]
    rw [selector, if_pos named, selectorParts_parameter kind rfl, selectorParts_openBrace opens]
  rw [rule_eq (congrArg Outcome.result selected), selected, if_neg fun nameless => full nameless.1]
  rfl

/-- Behind the heading and a value, a rule is read as the rest of its body is. -/
theorem statements_heading (value : Value final span) (last : final → tokens = [])
    (ended : ∀ t ∈ tokens.head?, t.kind = .semicolon ∨ t.kind = .closeBrace) :
    let body := reading.body (reading.including span) tokens
    reading.statements (heading ++ (span ++ tokens)) =
      ((reading.statements body.rest).map (.rule body.result :: ·)).after body.problems := by
  have values : (reading.values span).result = listed (reading.valueText span) := by
    have alone := @values_one final reading span [] value (fun _ => rfl) nofun
    rw [List.append_nil] at alone
    rw [alone]
  simp only [heading, List.cons_append, List.nil_append]
  rw [statements_rule (by simp) (by simp), rule_opened rfl (by simp) rfl rfl,
    body_property rfl rfl (.one value) last ended, values]
  rfl

end Reading

namespace Lexed

variable {before cs : List Char} {tokens : List Token}

private theorem closeBrace (lexed : Lexed .hyphenated before (' ' :: '\x7d' :: cs) tokens) :
    ∃ closing others, tokens = closing :: others ∧ closing.kind = .closeBrace ∧
      Lexed .hyphenated (before ++ [' ', '\x7d']) cs others := by
  have skips : Gap.blank.split (' ' :: '\x7d' :: cs) = ([' '], '\x7d' :: cs) := rfl
  obtain ⟨closing, others, rfl, read, rest⟩ := lexed.exists_cons skips
  have single := @Lexeme.read_single .hyphenated '\x7d' cs _ rfl
  rw [single] at rest
  refine ⟨closing, others, rfl, ?_, ?_⟩
  · rw [read.kind, single]
  · simpa using rest

end Lexed

namespace Statement

variable {r : String} {file : Option Path}

/-- Nothing is reported of a text exactly if its tokens are known and their statements are read without a
report. -/
theorem clean_iff (text : String) : (ofText text file).2 = [] ↔
    (∀ t ∈ Token.ofText .hyphenated text, t.kind ≠ .unknown) ∧
      ((Reading.ofText text file).statements (Token.known text)).problems = [] := by
  refine List.append_eq_nil_iff.trans (and_congr_left fun _ => ?_)
  rw [List.map_eq_nil_iff, List.filter_eq_nil_iff]
  simp

/-- A rule that includes one value, as it is written. -/
def inclusion (value : String) : String :=
  "files[a] \x7b include: " ++ value ++ "; \x7d"

theorem toList_inclusion (value : String) : (inclusion value).toList =
    Reading.headingText.toList ++ [' '] ++ value.toList ++ [';', ' ', '\x7d'] := by
  have start : "files[a] \x7b include: ".toList = Reading.headingText.toList ++ [' '] := by decide
  have ending : "; \x7d".toList = [';', ' ', '\x7d'] := by decide
  have parts (first last : String) :
      (first ++ value ++ last).toList = first.toList ++ value.toList ++ last.toList := by
    rw [String.toList_append, String.toList_append]
  exact (parts _ _).trans (congrArg₂ (· ++ value.toList ++ ·) start ending)

private theorem exists_tokens (raw : ∀ c ∈ r.toList, isRaw c = true) (back : String) :
    (∃ span semicolon closing others, Token.ofText .hyphenated (inclusion r ++ back) =
        Reading.heading ++ (span ++ semicolon :: closing :: others) ∧
      IsSpan (Reading.headingText.toList ++ [' ']) r.toList span ∧ semicolon.kind = .semicolon ∧
      closing.kind = .closeBrace ∧
      Lexed .hyphenated (inclusion r).toList back.toList others) ∨
    EndsInComment r.toList ∧ (back = "" → ∃ span, Token.ofText .hyphenated (inclusion r ++ back) =
      Reading.heading ++ span ∧ ∀ t ∈ span, t.kind.isRaw = true) := by
  have whole := lexed_ofText .hyphenated (inclusion r ++ back)
  have text : (inclusion r ++ back).toList = Reading.headingText.toList ++
      ([' '] ++ (r.toList ++ ';' :: ' ' :: '\x7d' :: back.toList)) := by
    rw [String.toList_append, toList_inclusion]
    simp only [List.append_assoc, List.cons_append, List.nil_append]
  rw [text] at whole
  obtain ⟨first, others, split, own, rest⟩ := whole.append Reading.closed_headingText
  obtain rfl : first = Reading.heading :=
    ((lexed_ofText .hyphenated Reading.headingText).unique own).trans Reading.tokens_headingText
  rw [List.nil_append] at rest
  have value := rest.behind_trivia (.blank (by decide) .nil)
  rcases value.raw raw with ⟨span, semicolon, later, rfl, tokens, kind, behind⟩ | ⟨hidden, lost⟩
  · obtain ⟨closing, others, rfl, closes, last⟩ := behind.closeBrace
    refine .inl ⟨span, semicolon, closing, others, split, tokens, kind, closes, ?_⟩
    rw [toList_inclusion]
    simpa only [List.append_assoc, List.cons_append, List.nil_append] using last
  · refine .inr ⟨hidden, ?_⟩
    rintro rfl
    exact ⟨others, split, lost (by decide) (by decide)⟩

theorem value_of_isRaw {final : Prop} {span : List Token} (raw : ∀ t ∈ span, t.kind.isRaw = true) :
    Value final span := by
  induction span with
  | nil => exact .nil
  | cons t span ih =>
    obtain ⟨own, others⟩ := List.forall_mem_cons.mp raw
    refine .token ?_ (ih others)
    rintro (kind | kind | kind | kind) <;> rw [kind] at own <;> cases own

theorem known_of_isRaw {span : List Token} (raw : ∀ t ∈ span, t.kind.isRaw = true) :
    ∀ t ∈ span, t.kind ≠ .unknown := by
  intro t member unknown
  have own := raw t member
  rw [unknown] at own
  cases own

/-- The tokens of known classes of a rule that includes a raw text, and of what stands behind it. -/
theorem known_of_tokens {text : String} {span others : List Token} (raw : ∀ t ∈ span, t.kind.isRaw = true)
    (tokens : Token.ofText .hyphenated text = Reading.heading ++ (span ++ others)) :
    Token.known text = Reading.heading ++ (span ++ others.filter (·.kind != .unknown)) := by
  have kept : span.filter (·.kind != .unknown) = span :=
    List.filter_eq_self.mpr fun t member => bne_iff_ne.mpr (known_of_isRaw raw t member)
  rw [Token.known, tokens, List.filter_append, List.filter_append, kept]
  rfl

/-- A rule that includes a raw text, all comments of which are closed, is read with what the tokens of
the text stand for as its value, and what stands behind it is read as it is alone. -/
theorem ofText_inclusion {span others : List Token} {semicolon closing : Token} {back : String}
    (tokens : Token.ofText .hyphenated (inclusion r ++ back) =
      Reading.heading ++ (span ++ semicolon :: closing :: others))
    (raw : ∀ t ∈ span, t.kind.isRaw = true) (ended : semicolon.kind = .semicolon)
    (closes : closing.kind = .closeBrace)
    (lexed : Lexed .hyphenated (inclusion r).toList back.toList others) :
    let reading := Reading.ofText (inclusion r ++ back) file
    (ofText (inclusion r ++ back) file).1.map placeless =
        .rule (reading.including span).placeless :: (ofText back file).1.map placeless ∧
      ((ofText (inclusion r ++ back) file).2 = [] ↔ (ofText back file).2 = []) := by
  intro reading
  have known : Token.known (inclusion r ++ back) = Reading.heading ++ (span ++
      semicolon :: closing :: others.filter (·.kind != .unknown)) := by
    rw [known_of_tokens raw tokens]
    simp [ended, closes]
  have alone := lexed_ofText .hyphenated back
  have alike : Reading.Alike reading (.ofText back file) (others.filter (·.kind != .unknown))
      (Token.known back) := by
    apply @Reading.alike_of_lexed (inclusion r).toList [] back.toList [] [] _ _ _ _ _ _ _ lexed alone
    · simp [reading, Reading.ofText]
    · simp [Reading.ofText]
  obtain ⟨result, problems, -⟩ := alike.statements
  have read : reading.statements (Token.known (inclusion r ++ back)) =
      (reading.statements (others.filter (·.kind != .unknown))).map
        (.rule (reading.including span) :: ·) := by
    rw [known, Reading.statements_heading (value_of_isRaw raw) False.elim (by simp [ended]),
      Reading.body_semicolon ended, Reading.body_closeBrace closes]
    rfl
  constructor
  · rw [fst_ofText, fst_ofText, result]
    exact congrArg (·.result.map placeless) read
  · have unknown : (∀ t ∈ others, t.kind ≠ .unknown) ↔
        ∀ t ∈ Token.ofText .hyphenated back, t.kind ≠ .unknown := by
      have contents := Token.content_of_moved (lexed.moved alone)
      have kinds (tokens : List Token) : (∀ t ∈ tokens, t.kind ≠ .unknown) ↔
          ∀ content ∈ tokens.map Token.content, content.1 ≠ .unknown := by
        simp [Token.content]
      rw [kinds, kinds, contents]
    have silent : ((Reading.ofText back file).statements (Token.known back)).problems = [] ↔
        (reading.statements (others.filter (·.kind != .unknown))).problems = [] := by
      rw [← List.map_eq_nil_iff (f := Diagnostic.placeless), problems, List.map_eq_nil_iff]
    have front : ∀ t ∈ Reading.heading, t.kind ≠ .unknown := by decide
    have seen := known_of_isRaw raw
    rw [clean_iff, clean_iff, silent, ← unknown, tokens]
    refine and_congr ?_ (iff_of_eq (congrArg (·.problems = []) read))
    simp only [List.forall_mem_append, List.forall_mem_cons, ended, closes]
    exact ⟨fun all => all.2.2.2.2, fun all => ⟨front, seen, by decide, by decide, all⟩⟩

/-- A rule that includes a raw text with an open comment is reported as unfinished. -/
theorem ofText_inclusion_open {span : List Token} {text : String}
    (tokens : Token.ofText .hyphenated text = Reading.heading ++ span)
    (raw : ∀ t ∈ span, t.kind.isRaw = true) : (ofText text file).2 ≠ [] := by
  have known : Token.known text = Reading.heading ++ (span ++ []) :=
    known_of_tokens raw (by rw [tokens, List.append_nil])
  have value : Value True span := value_of_isRaw raw
  have read := @Reading.statements_heading (.ofText text file) span True [] value (fun _ => rfl) nofun
  rw [← known] at read
  intro clean
  have silent := (clean_iff text).mp clean |>.2
  rw [read, Reading.body] at silent
  cases silent

/-- A raw text is the value of a rule that includes it exactly if it neither begins with a comment nor
ends in one, as is the case if no comment opens in it. Then nothing is reported of the rule in front of
any text of which nothing is, and what stands behind the rule is read as it is alone. -/
theorem ofText_inclusion_iff (filled : r ≠ "") (raw : ∀ c ∈ r.toList, isRaw c = true)
    (file : Option Path) :
    ((∀ back, (ofText back file).2 = [] → (ofText (inclusion r ++ back) file).2 = [] ∧
        (ofText (inclusion r ++ back) file).1.map placeless =
          .rule { name := "files", parameter := some "a", properties := [⟨"include", [r], {}⟩] } ::
            (ofText back file).1.map placeless) ↔
      IsVerbatim r.toList) ∧
    (¬ ['/', '/'] <:+: r.toList → ¬ ['/', '*'] <:+: r.toList → IsVerbatim r.toList) := by
  have value (back : String) {span : List Token}
      (tokens : IsSpan (Reading.headingText.toList ++ [' ']) r.toList span) :
      (Reading.ofText (inclusion r ++ back) file).valueText span = r ↔ IsVerbatim r.toList := by
    have source : (Reading.ofText (inclusion r ++ back) file).source = Reading.headingText.toList ++
        [' '] ++ (r.toList ++ ([';', ' ', '\x7d'] ++ back.toList)) := by
      rw [Reading.ofText, String.toList_append, toList_inclusion, List.append_assoc, List.append_assoc]
    have taken := Reading.valueText_span_iff source raw
      (fun empty => filled (String.toList_inj.mp empty)) tokens
    rwa [String.ofList_toList] at taken
  refine ⟨⟨fun all => ?_, fun verbatim back clean => ?_⟩, isVerbatim_of_not_infix⟩
  · have empty : (ofText "" file).2 = [] := by
      have none : Token.ofText .hyphenated "" = [] := TokenStream.tokens_eq_nil rfl
      rw [clean_iff, Token.known, none, List.filter_nil, Reading.statements_nil]
      exact ⟨List.forall_mem_nil _, rfl⟩
    obtain ⟨clean, read⟩ := all "" empty
    rcases exists_tokens raw "" with
      ⟨span, semicolon, closing, others, tokens, whole, ended, closes, lexed⟩ | ⟨-, lost⟩
    · have own := (@ofText_inclusion r file span others _ _ "" tokens whole.raw ended closes lexed).1
      obtain ⟨same, -⟩ := List.cons.inj (own.symm.trans read)
      have properties := congrArg PackageSheet.Rule.properties (Statement.rule.inj same)
      have values := congrArg Property.values (List.cons.inj properties).1
      refine (value "" whole).mp ?_
      change Reading.listed _ = [r] at values
      unfold Reading.listed at values
      split at values
      · cases values
      · exact (List.cons.inj values).1
    · obtain ⟨span, tokens, known⟩ := lost rfl
      exact absurd clean (ofText_inclusion_open tokens known)
  · rcases exists_tokens raw back with
      ⟨span, semicolon, closing, others, tokens, whole, ended, closes, lexed⟩ | ⟨hidden, -⟩
    · obtain ⟨read, silent⟩ :=
        @ofText_inclusion r file span others _ _ back tokens whole.raw ended closes lexed
      refine ⟨silent.mpr clean, ?_⟩
      rw [read, Reading.including, (value back whole).mpr verbatim, Reading.listed, if_neg filled]
      rfl
    · exact absurd hidden verbatim.ends

/-- A pattern in the middle of which stands a closed comment is verbatim. -/
theorem ofText_inclusion_pattern :
    let r := "bin/**/*.dll"
    r ≠ "" ∧ (∀ c ∈ r.toList, isRaw c = true) ∧
      ∀ back, (ofText back none).2 = [] → (ofText (inclusion r ++ back) none).2 = [] ∧
        (ofText (inclusion r ++ back) none).1.map placeless =
          .rule { name := "files", parameter := some "a", properties := [⟨"include", [r], {}⟩] } ::
            (ofText back none).1.map placeless := by
  intro r
  have filled : r ≠ "" := by decide
  have raw : ∀ c ∈ r.toList, isRaw c = true := List.all_eq_true.mp (by decide)
  have text : r.toList = ['b', 'i', 'n'] ++ ('/' :: '*' :: ([] ++ Gap.blockEnd ++ "*.dll".toList)) := by
    decide
  have ends : ¬ EndsInComment r.toList := by
    rw [text, endsInComment_append_iff (by decide), endsInComment_block_iff (by decide)]
    rintro (none | ends)
    · cases none
    · rw [← List.append_nil "*.dll".toList, endsInComment_append_iff (by decide)] at ends
      exact not_endsInComment_nil ends
  exact ⟨filled, raw, (ofText_inclusion_iff filled raw none).1.mpr ⟨by decide, ends⟩⟩

/-- A slash in front of a star opens a comment, which takes the rest of the pattern and the end of the
rule with it. -/
theorem pattern_opens_comment :
    let r := "bin/*.dll"
    r ≠ "" ∧ (∀ c ∈ r.toList, isRaw c = true) ∧ (ofText "" none).2 = [] ∧
      (ofText (inclusion r) none).1.map placeless =
        [.rule { name := "files", parameter := some "a", properties := [⟨"include", ["bin"], {}⟩] }] ∧
      (ofText (inclusion r) none).2.length = 1 := by
  refine ⟨by decide, List.all_eq_true.mp (by decide), ?_⟩
  decide +kernel

end Statement

end PackageSheet
