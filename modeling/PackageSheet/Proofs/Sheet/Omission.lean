import PackageSheet.Proofs.Sheet.Recovery

/-!
Leaving out what cannot be read. A property without a colon loses only itself, up to the first semicolon
or closing brace, and a rule whose selector has a mark that names nothing loses only itself, up to the
first closing brace of its block: all else in the text is read as if they were not there, with one syntax
error more (`Statement.ofText_unassigned`, `Statement.ofText_misnamed`). The closing brace of a reference
is no exception, so what stands behind a reference in such a property is read as if the rule had ended,
and in such a rule as if its block had (`Statement.reference_ends_rule`,
`Statement.reference_ends_block`).
-/

namespace PackageSheet

open Grammar

namespace Reading

def ofText (text : String) (file : Option Path) : Reading :=
  ⟨text.toList, file, (Token.known text).getLast?⟩

private theorem faithful_of_known {text : String} {front others : List Token}
    (split : Token.known text = front ++ others) (file : Option Path) :
    (ofText text file).Faithful front := by
  have whole : (ofText text file).Faithful (Token.known text) :=
    (faithful_of_lexed (lexed_ofText .hyphenated text)).sublist List.filter_sublist
  rw [split] at whole
  exact whole.sublist (List.sublist_append_left front others)

/-- A closed text, and one behind it, stand around two others that are closed: their tokens are alike in
both texts, and the tokens between them say what those of the inner texts say. -/
theorem exists_surroundings {front inner left : String} (ahead : Closed .hyphenated front.toList)
    (closed : Closed .hyphenated inner.toList) (short : Closed .hyphenated left.toList) (back : String)
    (file : Option Path) :
    let one := ofText (front ++ inner ++ back) file
    let other := ofText (front ++ left ++ back) file
    (one.Faithful (Token.known front) ∧ other.Faithful (Token.known front) ∧
      Alike one other (Token.known front) (Token.known front)) ∧
      ∃ inside kept later copied,
        Token.known (front ++ inner ++ back) = Token.known front ++ (inside ++ later) ∧
        Token.known (front ++ left ++ back) = Token.known front ++ (kept ++ copied) ∧
        inside.map Token.content = (Token.known inner).map Token.content ∧
        kept.map Token.content = (Token.known left).map Token.content ∧
        Alike one other later copied := by
  intro one other
  obtain ⟨inside, later, split, contents, lexed⟩ := Token.known_append ahead closed back
  obtain ⟨kept, copied, parted, remains, copies⟩ := Token.known_append ahead short back
  have own := lexed_ofText .hyphenated front
  refine ⟨⟨faithful_of_known split file, faithful_of_known parted file, ?_⟩,
    inside, kept, _, _, split, parted, contents, remains, ?_⟩
  · apply @alike_of_lexed [] [] front.toList (inner ++ back).toList (left ++ back).toList _ _ _ _ _
      _ _ own own
    · simp [one, ofText]
    · simp [other, ofText]
  · apply @alike_of_lexed (front ++ inner).toList (front ++ left).toList back.toList [] [] _ _ _ _ _
      _ _ lexed copies
    · simp [one, ofText]
    · simp [other, ofText]

end Reading

namespace Statement

def syntaxErrors (diagnostics : List Diagnostic) : List Diagnostic :=
  (diagnostics.filter (·.code = .syntaxError)).map Diagnostic.placeless

variable {file : Option Path}

theorem fst_ofText (text : String) : (ofText text file).1 =
    ((Reading.ofText text file).statements (Token.known text)).result :=
  rfl

theorem syntaxErrors_ofText (text : String) : syntaxErrors (ofText text file).2 =
    ((Reading.ofText text file).statements (Token.known text)).problems.map Diagnostic.placeless := by
  have anomalies (tokens : List Token) (place : Token → Location) :
      (tokens.map fun t => (Problem.unrecognizedText t.text).diagnosedAt (place t)).filter
        (·.code = .syntaxError) = [] := by
    refine List.filter_eq_nil_iff.mpr fun d member => ?_
    obtain ⟨t, -, rfl⟩ := List.mem_map.mp member
    simp [Problem.diagnosedAt, Problem.diagnose, Problem.code]
  have problems : ((Reading.ofText text file).statements (Token.known text)).problems.filter
      (·.code = .syntaxError) = ((Reading.ofText text file).statements (Token.known text)).problems :=
    List.filter_eq_self.mpr fun d member => decide_eq_true (Reading.syntactic_statements d member)
  unfold syntaxErrors
  rw [← problems]
  unfold ofText
  rw [List.filter_append, anomalies]
  rfl

/-- What is left of a statement that is given up: a closing brace that ends it, and also the rule. -/
def remnant (ending : TokenKind) : String :=
  if ending = .closeBrace then "\x7d" else ""

theorem closed_remnant (ending : TokenKind) : Closed .hyphenated (remnant ending).toList := by
  unfold remnant
  split
  · exact closed_of_ends (lexed_ofText .hyphenated "\x7d") (by decide +kernel)
  · exact .gap .nil

theorem contents_remnant (ending : TokenKind) : (Token.known (remnant ending)).map Token.content =
    if ending = .closeBrace then [(.closeBrace, "\x7d")] else [] := by
  unfold remnant
  split
  · decide +kernel
  · decide +kernel

/-- A property without a colon loses only itself, up to the first semicolon or closing brace. Behind a
place between the properties of a rule, everything up to a semicolon may as well be left out, and
everything up to a closing brace but the brace: the same statements are read, and there is one syntax
error more, about the colon. -/
theorem ofText_unassigned {front extra back name : String} {ending : TokenKind} (file : Option Path)
    (ahead : Closed .hyphenated front.toList) (opened : Opened (Token.known front))
    (closed : Closed .hyphenated extra.toList)
    (unassigned : Unassigned name ending ((Token.known extra).map Token.content)) :
    let read := ofText (front ++ extra ++ back) file
    let left := ofText (front ++ remnant ending ++ back) file
    read.1.map placeless = left.1.map placeless ∧
      syntaxErrors read.2 =
        (Problem.missingColon name).diagnose none :: syntaxErrors left.2 := by
  intro read left
  obtain ⟨⟨faithful, copy, alike⟩, inside, kept, later, copied, split, parted, contents, remains, rest⟩ :=
    Reading.exists_surroundings ahead closed (closed_remnant ending) back file
  rw [← contents] at unassigned
  rw [contents_remnant] at remains
  obtain ⟨start, v, stop, rfl, kind, rfl, missing, inner, ended, ends⟩ := unassigned.exists_tokens
  obtain ⟨place, lost⟩ := @Reading.statements_unassigned (Reading.ofText (front ++ extra ++ back) file)
    start stop v later (Token.known front) opened faithful kind missing inner (ended.symm ▸ ends)
  obtain ⟨declared, twin, same, onward⟩ := alike.opened opened faithful copy
  have resumed := onward (stop :: later) (kept ++ copied) <| by
    rcases ends with rfl | rfl
    · obtain rfl : kept = [] := List.map_eq_nil_iff.mp remains
      rw [Reading.body_semicolon ended]
      exact rest.body same
    · obtain ⟨brace, none, rfl, said, last⟩ := List.map_eq_cons_iff.mp remains
      obtain rfl := List.map_eq_nil_iff.mp last
      rw [Reading.body_closeBrace ended, List.cons_append,
        Reading.body_closeBrace (congrArg Prod.fst said)]
      exact ⟨same, rfl, rest⟩
  have whole : Token.known (front ++ extra ++ back) =
      Token.known front ++ start :: (v ++ stop :: later) := by
    rw [split]
    simp
  constructor
  · rw [fst_ofText, fst_ofText, whole, lost, parted]
    exact resumed.result.symm
  · rw [syntaxErrors_ofText, syntaxErrors_ofText, whole, lost, parted, resumed.problems]
    rfl

/-- A literal with a brace in it is lost together with the name that it stands behind. -/
theorem ofText_unassigned_literal :
    let front := "files[a] \x7b root: out;"
    let extra := " exclude @\x22\x7d\x22, b;"
    let back := " include: a.txt; \x7d"
    (ofText (front ++ extra ++ back) none).1.map placeless =
        (ofText (front ++ remnant .semicolon ++ back) none).1.map placeless ∧
      syntaxErrors (ofText (front ++ extra ++ back) none).2 =
        (Problem.missingColon "exclude").diagnose none ::
          syntaxErrors (ofText (front ++ remnant .semicolon ++ back) none).2 := by
  intro front extra back
  have tokens : Token.ofText .hyphenated front = [⟨.identifier, "files", 0, 5, 1, 1⟩,
      ⟨.selectorParameter, "a", 5, 8, 1, 6⟩, ⟨.openBrace, "\x7b", 9, 10, 1, 10⟩,
      ⟨.identifier, "root", 11, 15, 1, 12⟩, ⟨.colon, ":", 15, 16, 1, 16⟩,
      ⟨.identifier, "out", 17, 20, 1, 18⟩, ⟨.semicolon, ";", 20, 21, 1, 21⟩] := by
    decide +kernel
  have others : Token.ofText .hyphenated extra = [⟨.identifier, "exclude", 1, 8, 1, 2⟩,
      ⟨.atStringLiteral, "\x7d", 9, 13, 1, 10⟩, ⟨.comma, ",", 13, 14, 1, 14⟩,
      ⟨.identifier, "b", 15, 16, 1, 16⟩, ⟨.semicolon, ";", 16, 17, 1, 17⟩] := by
    decide +kernel
  have ahead : Closed .hyphenated front.toList :=
    closed_of_ends (tokens ▸ lexed_ofText .hyphenated front) ⟨_, rfl, rfl, by decide +kernel⟩
  have closed : Closed .hyphenated extra.toList :=
    closed_of_ends (others ▸ lexed_ofText .hyphenated extra) ⟨_, rfl, rfl, by decide +kernel⟩
  have opened : Opened (Token.known front) := by
    rw [Token.known, tokens]
    have value : Value False [⟨.identifier, "out", 17, 20, 1, 18⟩] :=
      .token (by simp [Separates]) .nil
    have root : Clauses ([⟨.identifier, "root", 11, 15, 1, 12⟩, ⟨.colon, ":", 15, 16, 1, 16⟩,
        ⟨.identifier, "out", 17, 20, 1, 18⟩] ++ [⟨.semicolon, ";", 20, 21, 1, 21⟩]) :=
      .property (.intro rfl rfl (.one value)) rfl .nil
    exact .intro .nil (.named (.inl rfl) (.ofParameter rfl .nil) le_rfl) rfl root
  have unassigned : Unassigned "exclude" .semicolon ((Token.known extra).map Token.content) := by
    rw [Token.known, others]
    have value : ∀ c ∈ [(TokenKind.atStringLiteral, "\x7d"), (.comma, ","), (.identifier, "b")],
        c.1 ≠ .semicolon ∧ c.1 ≠ .closeBrace := by
      simp
    exact .intro (by simp) value (.inl rfl)
  exact ofText_unassigned none ahead opened closed unassigned

/-- A reference ends the rule in which its property has no colon: what follows it is read as if it stood
behind the rule. -/
theorem reference_ends_rule :
    let read := ofText "files[a] \x7b root $\x7bx\x7d; include: a.txt; \x7d" none
    let left := ofText "files[a] \x7b include: a.txt; \x7d" none
    (syntaxErrors read.2).length = 3 ∧
      read.1.map placeless = [.rule { name := "files", parameter := some "a" }] ∧
      left.1.map placeless = [.rule { name := "files", parameter := some "a",
                                      properties := [⟨"include", ["a.txt"], {}⟩] }] := by
  decide +kernel

/-- A rule with a dot or a hash in its selector that no identifier follows loses only itself, up to the
first closing brace of its block. Behind complete statements, everything up to there may as well be left
out: the same statements are read, and there is one syntax error more. -/
theorem ofText_misnamed {front bad back : String} (file : Option Path)
    (ahead : Closed .hyphenated front.toList) (items : Items (Token.known front))
    (closed : Closed .hyphenated bad.toList)
    (abandoned : Abandoned ((Token.known bad).map Token.content)) :
    let read := ofText (front ++ bad ++ back) file
    let left := ofText (front ++ back) file
    read.1.map placeless = left.1.map placeless ∧
      ∃ problem : Problem, problem.code = .syntaxError ∧
        syntaxErrors read.2 = problem.diagnose none :: syntaxErrors left.2 := by
  intro read left
  have nothing : front ++ back = front ++ remnant .semicolon ++ back :=
    congrArg (· ++ back) String.append_empty.symm
  obtain ⟨⟨faithful, copy, alike⟩, inside, kept, later, copied, split, parted, contents, remains, rest⟩ :=
    Reading.exists_surroundings ahead closed (closed_remnant .semicolon) back file
  rw [contents_remnant] at remains
  obtain rfl : kept = [] := List.map_eq_nil_iff.mp remains
  rw [← nothing] at parted copy alike rest
  rw [← contents] at abandoned
  obtain ⟨start, s, opening, b, closing, rfl, directive, misnamed, plain, opens, inner, closes⟩ :=
    abandoned.exists_tokens
  obtain ⟨problem, place, coded, lost⟩ := @Reading.statements_misnamed
    (Reading.ofText (front ++ bad ++ back) file) start opening closing b s later (Token.known front)
    items faithful directive misnamed plain opens inner closes
  have resumed := alike.items items faithful copy rest.statements
  have whole : Token.known (front ++ bad ++ back) =
      Token.known front ++ start :: (s ++ opening :: (b ++ closing :: later)) := by
    rw [split]
    simp
  rw [List.nil_append] at parted
  refine ⟨?_, problem, coded, ?_⟩
  · rw [fst_ofText, fst_ofText, whole, lost, parted]
    exact resumed.result.symm
  · rw [syntaxErrors_ofText, syntaxErrors_ofText, whole, lost, parted, resumed.problems]
    rfl

/-- A dot with no class behind it costs the rule, and the statements around it are read. -/
theorem ofText_misnamed_nameless :
    let front := "@import a;"
    let bad := " files. \x7b root: b; \x7d"
    let back := " files[a] \x7b include: a.txt; \x7d"
    (ofText (front ++ bad ++ back) none).1.map placeless =
        (ofText (front ++ back) none).1.map placeless ∧
      ∃ problem : Problem, problem.code = .syntaxError ∧
        syntaxErrors (ofText (front ++ bad ++ back) none).2 =
          problem.diagnose none :: syntaxErrors (ofText (front ++ back) none).2 := by
  intro front bad back
  have tokens : Token.ofText .hyphenated front = [⟨.directive, "import", 0, 7, 1, 1⟩,
      ⟨.identifier, "a", 8, 9, 1, 9⟩, ⟨.semicolon, ";", 9, 10, 1, 10⟩] := by
    decide +kernel
  have others : Token.ofText .hyphenated bad = [⟨.identifier, "files", 1, 6, 1, 2⟩,
      ⟨.dot, ".", 6, 7, 1, 7⟩, ⟨.openBrace, "\x7b", 8, 9, 1, 9⟩, ⟨.identifier, "root", 10, 14, 1, 11⟩,
      ⟨.colon, ":", 14, 15, 1, 15⟩, ⟨.identifier, "b", 16, 17, 1, 17⟩, ⟨.semicolon, ";", 17, 18, 1, 18⟩,
      ⟨.closeBrace, "\x7d", 19, 20, 1, 20⟩] := by
    decide +kernel
  have ahead : Closed .hyphenated front.toList :=
    closed_of_ends (tokens ▸ lexed_ofText .hyphenated front) ⟨_, rfl, rfl, by decide +kernel⟩
  have closed : Closed .hyphenated bad.toList :=
    closed_of_ends (others ▸ lexed_ofText .hyphenated bad) ⟨_, rfl, rfl, by decide +kernel⟩
  have items : Items (Token.known front) := by
    rw [Token.known, tokens]
    have value : Value False [⟨.identifier, "a", 8, 9, 1, 9⟩] := .token (by simp [Separates]) .nil
    have valued : Valued [⟨.identifier, "a", 8, 9, 1, 9⟩] := ⟨_, List.mem_cons_self, .inl rfl⟩
    exact .importFile ⟨rfl, rfl⟩ value valued rfl .nil
  have abandoned : Abandoned ((Token.known bad).map Token.content) := by
    rw [Token.known, others]
    have misnamed : Misnamed [(.identifier, "files"), (.dot, ".")] :=
      ⟨[(.identifier, "files")], (.dot, "."), [], rfl, .inl rfl, by simp⟩
    have block : ∀ c ∈ [(TokenKind.identifier, "root"), (.colon, ":"), (.identifier, "b"),
        (.semicolon, ";")], c.1 ≠ .closeBrace := by
      simp
    exact .intro (by simp) (by simp) misnamed block
  exact ofText_misnamed none ahead items closed abandoned

/-- A reference ends the block that is skipped: the rest of the block is read as if it stood behind. -/
theorem reference_ends_block :
    let read := ofText "files. \x7b x: $\x7by\x7d; z: 1; \x7d package \x7b name: p; \x7d" none
    let left := ofText "package \x7b name: p; \x7d" none
    (syntaxErrors read.2).length = 3 ∧ syntaxErrors left.2 = [] := by
  decide +kernel

end Statement

end PackageSheet
