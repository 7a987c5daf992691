import PackageSheet.Proofs.Sheet.Alike

namespace PackageSheet

namespace Grammar

/-- Properties of a rule, each of which is ended by a semicolon. -/
inductive Clauses : List Token → Prop where
  | nil : Clauses []
  | semicolon {t : Token} {ts : List Token} (kind : t.kind = .semicolon) (rest : Clauses ts) :
      Clauses (t :: ts)
  | property {p ts : List Token} {ending : Token} (property : Property False p)
      (ends : ending.kind = .semicolon) (rest : Clauses ts) : Clauses (p ++ ending :: ts)

/-- A sheet up to some place between the properties of a rule. -/
inductive Opened : List Token → Prop where
  | intro {items selector clauses : List Token} {opening : Token} (before : Items items)
      (selects : Selector selector) (opens : opening.kind = .openBrace) (inside : Clauses clauses) :
      Opened (items ++ (selector ++ opening :: clauses))

/-- The name of a property, with something behind it that does not begin with a colon, up to the first
semicolon or closing brace. -/
inductive Unassigned (name : String) (ending : TokenKind) : List (TokenKind × String) → Prop where
  | intro {v : List (TokenKind × String)} {mark : String} (missing : ∀ c ∈ v.head?, c.1 ≠ .colon)
      (inside : ∀ c ∈ v, c.1 ≠ .semicolon ∧ c.1 ≠ .closeBrace)
      (ends : ending = .semicolon ∨ ending = .closeBrace) :
      Unassigned name ending ((.identifier, name) :: (v ++ [(ending, mark)]))

/-- A dot or a hash with no identifier behind it. -/
def Misnamed (s : List (TokenKind × String)) : Prop :=
  ∃ front mark back, s = front ++ mark :: back ∧ (mark.1 = .dot ∨ mark.1 = .hash) ∧
    ∀ c ∈ back.head?, c.1 ≠ .identifier

theorem not_misnamed_nil : ¬ Misnamed [] := by
  rintro ⟨front, mark, back, split, -⟩
  cases front <;> cases split

/-- A mark that names nothing is the first one, or stands behind it. -/
theorem Misnamed.cases_cons {c : TokenKind × String} {cs : List (TokenKind × String)}
    (misnamed : Misnamed (c :: cs)) :
    (c.1 = .dot ∨ c.1 = .hash) ∧ (∀ d ∈ cs.head?, d.1 ≠ .identifier) ∨ Misnamed cs := by
  obtain ⟨front, mark, back, split, marks, unnamed⟩ := misnamed
  cases front with
  | nil =>
    obtain ⟨rfl, rfl⟩ := List.cons.inj split
    exact .inl ⟨marks, unnamed⟩
  | cons d front =>
    obtain ⟨rfl, rfl⟩ := List.cons.inj split
    exact .inr ⟨front, mark, back, rfl, marks, unnamed⟩

/-- A rule with such a mark in its selector, up to the first closing brace of its block. -/
inductive Abandoned : List (TokenKind × String) → Prop where
  | intro {s b : List (TokenKind × String)} {opening closing : String}
      (begins : ∀ c ∈ s.head?, c.1 ≠ .directive)
      (plain : ∀ c ∈ s, c.1 ≠ .semicolon ∧ c.1 ≠ .openBrace ∧ c.1 ≠ .closeBrace)
      (misnamed : Misnamed s) (inside : ∀ c ∈ b, c.1 ≠ .closeBrace) :
      Abandoned (s ++ (.openBrace, opening) :: (b ++ [(.closeBrace, closing)]))

theorem Unassigned.exists_tokens {name : String} {ending : TokenKind} {tokens : List Token}
    (unassigned : Unassigned name ending (tokens.map Token.content)) :
    ∃ start v stop, tokens = start :: (v ++ [stop]) ∧ start.kind = .identifier ∧ start.text = name ∧
      (∀ t ∈ v.head?, t.kind ≠ .colon) ∧ (∀ t ∈ v, t.kind ≠ .semicolon ∧ t.kind ≠ .closeBrace) ∧
      stop.kind = ending ∧ (ending = .semicolon ∨ ending = .closeBrace) := by
  generalize said : tokens.map Token.content = contents at unassigned
  obtain @⟨v, mark, missing, inside, ends⟩ := unassigned
  obtain ⟨start, rest, rfl, named, value⟩ := List.map_eq_cons_iff.mp said
  obtain ⟨v, last, rfl, rfl, after⟩ := List.map_eq_append_iff.mp value
  obtain ⟨stop, rest, rfl, stops, end'⟩ := List.map_eq_cons_iff.mp after
  obtain rfl := List.map_eq_nil_iff.mp end'
  obtain ⟨kind, text⟩ := Prod.mk.inj named
  refine ⟨start, v, stop, rfl, kind, text, ?_, List.forall_mem_map.mp inside,
    congrArg Prod.fst stops, ends⟩
  rintro t first
  exact missing t.content (by rw [List.head?_map]; exact Option.mem_map_of_mem _ first)

theorem Abandoned.exists_tokens {tokens : List Token}
    (abandoned : Abandoned (tokens.map Token.content)) :
    ∃ start s opening b closing, tokens = start :: (s ++ opening :: (b ++ [closing])) ∧
      start.kind ≠ .directive ∧ Misnamed ((start :: s).map Token.content) ∧
      (∀ t ∈ start :: s, t.kind ∉ [.semicolon, .openBrace, .closeBrace]) ∧
      opening.kind = .openBrace ∧ (∀ t ∈ b, t.kind ≠ .closeBrace) ∧ closing.kind = .closeBrace := by
  generalize said : tokens.map Token.content = contents at abandoned
  obtain @⟨s, b, opened, closed, begins, plain, misnamed, inside⟩ := abandoned
  obtain ⟨s, rest, rfl, rfl, block⟩ := List.map_eq_append_iff.mp said
  obtain ⟨opening, rest, rfl, opens, inner⟩ := List.map_eq_cons_iff.mp block
  obtain ⟨b, last, rfl, rfl, after⟩ := List.map_eq_append_iff.mp inner
  obtain ⟨closing, rest, rfl, closes, end'⟩ := List.map_eq_cons_iff.mp after
  obtain rfl := List.map_eq_nil_iff.mp end'
  cases s with
  | nil => exact absurd misnamed not_misnamed_nil
  | cons start s =>
    refine ⟨start, s, opening, b, closing, rfl, begins start.content rfl, misnamed, ?_,
      congrArg Prod.fst opens, fun t member => inside t.content (List.mem_map_of_mem member),
      congrArg Prod.fst closes⟩
    intro t member
    have kinds : t.kind ≠ .semicolon ∧ t.kind ≠ .openBrace ∧ t.kind ≠ .closeBrace :=
      plain t.content (List.mem_map_of_mem member)
    simpa using kinds

end Grammar

open Grammar

namespace Reading

variable {reading : Reading} {declared : PackageSheet.Rule}
  {t name opening closing ending : Token} {b s v rest front tokens : List Token}

private theorem body_clauses (inside : Clauses b) :
    ∃ filled, ∀ rest, body reading declared (b ++ rest) = body reading filled rest := by
  induction inside generalizing declared with
  | nil => exact ⟨declared, fun rest => rfl⟩
  | @semicolon t ts kind others ih =>
    obtain ⟨filled, read⟩ := @ih declared
    refine ⟨filled, fun rest => ?_⟩
    rw [List.cons_append, body_semicolon kind]
    exact read rest
  | @property p ts ending property ends others ih =>
    obtain @⟨name, colon, vs, named, sep, values⟩ := property
    obtain ⟨filled, read⟩ :=
      @ih (declared.declare name.text (reading.values vs).result (reading.locate name))
    refine ⟨filled, fun rest => ?_⟩
    have ended : ∀ t ∈ (ending :: (ts ++ rest)).head?,
        t.kind = .semicolon ∨ t.kind = .closeBrace := by
      simp [ends]
    rw [List.append_assoc, List.cons_append, List.cons_append, List.cons_append,
      body_property named sep values False.elim ended, body_semicolon ends]
    exact read rest

/-- A sheet up to a place in a rule leaves this rule to be filled from what follows. -/
theorem statements_opened (whole : Opened front) (faithful : reading.Faithful front) :
    ∃ earlier declared, (statements reading front).result = earlier ++ [.rule declared] ∧
      ∀ rest, statements reading (front ++ rest) =
        ((statements reading (reading.body declared rest).rest).map
          (earlier ++ .rule (reading.body declared rest).result :: ·)).after
          (reading.body declared rest).problems := by
  obtain @⟨items, s, clauses, opening, before, selects, opens, inside⟩ := whole
  obtain ⟨earlier, read⟩ :=
    statements_items before (faithful.sublist (List.sublist_append_left items _))
  cases s with
  | nil => exact absurd rfl selects.ne_nil
  | cons start parts =>
    have named : start.kind = .identifier → start.text ≠ "" := by
      refine faithful.named start ?_
      simp
    obtain ⟨selected, selecting, proper⟩ := @selector_append reading start opening parts selects named opens
    obtain ⟨declared, filling⟩ := @body_clauses reading selected clauses inside
    obtain ⟨semicolon, directive⟩ := selects.kind_head
    have own (rest : List Token) : reading.rule start (parts ++ opening :: (clauses ++ rest)) =
        (reading.body declared rest).map some := by
      rw [rule_eq (congrArg Outcome.result (selecting _)), selecting, if_neg proper, filling]
      rfl
    have onward (rest : List Token) :
        statements reading (items ++ (start :: parts ++ opening :: clauses) ++ rest) =
          ((statements reading (reading.body declared rest).rest).map
            (earlier ++ .rule (reading.body declared rest).result :: ·)).after
            (reading.body declared rest).problems := by
      have whole : items ++ (start :: parts ++ opening :: clauses) ++ rest =
          items ++ (start :: (parts ++ opening :: (clauses ++ rest))) := by
        simp
      rw [whole, read, statements_rule semicolon directive, own]
      rfl
    refine ⟨earlier, declared, ?_, onward⟩
    have alone := onward []
    rw [List.append_nil] at alone
    rw [alone, Reading.body]
    simp only [Outcome.after, Outcome.map, statements_nil]

/-- What is skipped ends in front of the first token of one of the kinds. -/
theorem skipTo_append {stops : List TokenKind} (inside : ∀ t ∈ v, t.kind ∉ stops)
    (ends : ending.kind ∈ stops) : skipTo stops (v ++ ending :: rest) = ending :: rest := by
  unfold skipTo
  rw [List.dropWhile_append_of_pos (by simpa using inside), List.dropWhile_cons_of_neg]
  simpa using ends

private theorem body_unassigned (named : name.kind = .identifier)
    (missing : ∀ t ∈ v.head?, t.kind ≠ .colon)
    (inside : ∀ t ∈ v, t.kind ≠ .semicolon ∧ t.kind ≠ .closeBrace)
    (ends : ending.kind = .semicolon ∨ ending.kind = .closeBrace) :
    ∃ place, reading.body declared (name :: (v ++ ending :: rest)) =
      (reading.body declared (ending :: rest)).after
        [(Problem.missingColon name.text).diagnosedAt place] := by
  have colon : nextIs .colon (v ++ ending :: rest) = false := by
    cases v with
    | nil => rcases ends with kind | kind <;> simp [nextIs, kind]
    | cons t v => simpa [nextIs] using missing
  have skipped : skipTo [.semicolon, .closeBrace] (v ++ ending :: rest) = ending :: rest :=
    skipTo_append (by simpa using inside) (by simpa using ends)
  refine ⟨reading.here (v ++ ending :: rest), ?_⟩
  rw [Reading.body]
  split
  · simp_all
  · simp_all
  · unfold property
    rw [colon, skipped]
    rfl
  · simp_all

private theorem skipBlock_append (plain : ∀ t ∈ s, t.kind ∉ [.semicolon, .openBrace, .closeBrace])
    (opens : opening.kind = .openBrace) (inside : ∀ t ∈ b, t.kind ≠ .closeBrace)
    (closes : closing.kind = .closeBrace) :
    skipBlock (s ++ opening :: (b ++ closing :: rest)) = rest := by
  have found := @skipTo_append opening s (b ++ closing :: rest) _ plain (by simp [opens])
  have block : ∀ t ∈ opening :: b, t.kind ∉ [TokenKind.closeBrace] := by
    simpa [opens] using inside
  have past := @skipTo_append closing (opening :: b) rest _ block (by simp [closes])
  unfold skipBlock skipPast
  rw [List.cons_append] at past
  simp only [found, nextIs_iff.mpr ⟨opening, _, rfl, opens⟩, if_true, past, List.drop_succ_cons,
    List.drop_zero]

private theorem selectorParts_mark {mark : Token} (marks : mark.kind = .dot ∨ mark.kind = .hash) :
    (∃ name tail selected, tokens = name :: tail ∧ name.kind = .identifier ∧
      selectorParts reading declared (mark :: tokens) = selectorParts reading selected tail) ∨
    ∃ problem : Problem, problem.code = .syntaxError ∧
      selectorParts reading declared (mark :: tokens) = reading.abandon problem tokens := by
  by_cases named : nextIs .identifier tokens = true
  · obtain ⟨name, tail, rfl, kind⟩ := nextIs_iff.mp named
    left
    rcases marks with mark | mark
    · exact ⟨name, tail, _, rfl, kind, selectorParts_class mark kind⟩
    · exact ⟨name, tail, _, rfl, kind, selectorParts_id mark kind⟩
  · right
    rw [Bool.not_eq_true] at named
    rcases marks with mark | mark
    · exact ⟨.missingClassName, rfl, selectorParts_unnamedClass mark named⟩
    · exact ⟨.missingIdName, rfl, selectorParts_unnamedId mark named⟩

private theorem selectorParts_other (marks : ¬ (t.kind = .dot ∨ t.kind = .hash))
    (inside : t.kind ≠ .openBrace) :
    (∃ selected, selectorParts reading declared (t :: tokens) =
      selectorParts reading selected tokens) ∨
    ∃ problem : Problem, problem.code = .syntaxError ∧
      selectorParts reading declared (t :: tokens) = reading.abandon problem (t :: tokens) := by
  by_cases free : t.kind = .selectorParameter ∧ declared.parameter = none
  · exact .inl ⟨_, selectorParts_parameter free.1 free.2⟩
  · exact .inr ⟨.unopenedBlock declared.selectorText, rfl, selectorParts_unopened marks inside free⟩

/-- A rule was given up with one report, and reading goes on with some tokens. -/
def GivenUp (outcome : Outcome (Option PackageSheet.Rule)) (rest : List Token) : Prop :=
  ∃ (problem : Problem) (place : Location), problem.code = .syntaxError ∧
    outcome = ⟨none, [problem.diagnosedAt place], rest⟩

private theorem givenUp_abandon {problem : Problem} (coded : problem.code = .syntaxError)
    (plain : ∀ t ∈ s, t.kind ∉ [.semicolon, .openBrace, .closeBrace])
    (opens : opening.kind = .openBrace) (inside : ∀ t ∈ b, t.kind ≠ .closeBrace)
    (closes : closing.kind = .closeBrace) :
    GivenUp (reading.abandon problem (s ++ opening :: (b ++ closing :: rest))) rest := by
  refine ⟨problem, reading.here (s ++ opening :: (b ++ closing :: rest)), coded, ?_⟩
  rw [abandon, skipBlock_append plain opens inside closes]

private theorem givenUp_selectorParts (misnamed : Misnamed (s.map Token.content))
    (plain : ∀ t ∈ s, t.kind ∉ [.semicolon, .openBrace, .closeBrace])
    (opens : opening.kind = .openBrace) (inside : ∀ t ∈ b, t.kind ≠ .closeBrace)
    (closes : closing.kind = .closeBrace) :
    GivenUp (selectorParts reading declared (s ++ opening :: (b ++ closing :: rest))) rest := by
  -- a mark takes the name behind it along, so the induction is on the number of tokens
  induction length : s.length using Nat.strong_induction_on generalizing s declared with
  | _ n ih =>
    cases s with
    | nil => exact absurd misnamed not_misnamed_nil
    | cons t s =>
      have here := plain t List.mem_cons_self
      have others : ∀ t ∈ s, t.kind ∉ [.semicolon, .openBrace, .closeBrace] :=
        fun t member => plain t (.tail _ member)
      rw [List.length_cons] at length
      by_cases marks : t.kind = .dot ∨ t.kind = .hash
      · rcases @selectorParts_mark reading declared (s ++ opening :: (b ++ closing :: rest)) t marks with
          ⟨name, tail, selected, split, named, read⟩ | ⟨problem, coded, read⟩
        · cases s with
          | nil =>
            obtain ⟨rfl, -⟩ := List.cons.inj split
            rw [opens] at named
            cases named
          | cons next s =>
            obtain ⟨rfl, rfl⟩ := List.cons.inj split
            have later : Misnamed (s.map Token.content) := by
              rcases misnamed.cases_cons with ⟨-, unnamed⟩ | misnamed
              · exact absurd named (unnamed next.content rfl)
              · rcases misnamed.cases_cons with ⟨mark, -⟩ | misnamed
                · rcases mark with kind | kind <;> cases named.symm.trans kind
                · exact misnamed
            have shorter : s.length < n := by
              rw [List.length_cons] at length
              omega
            rw [List.cons_append, read]
            exact ih s.length shorter later (fun t member => others t (.tail _ member)) rfl
        · rw [List.cons_append, read]
          exact givenUp_abandon coded others opens inside closes
      · rcases @selectorParts_other reading declared t (s ++ opening :: (b ++ closing :: rest)) marks
          (by simp_all) with ⟨selected, read⟩ | ⟨problem, coded, read⟩
        · have later := misnamed.cases_cons.resolve_left fun first => marks first.1
          rw [List.cons_append, read]
          exact ih s.length (by omega) later others rfl
        · rw [List.cons_append, read]
          exact givenUp_abandon coded plain opens inside closes

private theorem givenUp_rule (misnamed : Misnamed ((t :: s).map Token.content))
    (plain : ∀ u ∈ t :: s, u.kind ∉ [.semicolon, .openBrace, .closeBrace])
    (opens : opening.kind = .openBrace) (inside : ∀ t ∈ b, t.kind ≠ .closeBrace)
    (closes : closing.kind = .closeBrace) :
    GivenUp (reading.rule t (s ++ opening :: (b ++ closing :: rest))) rest := by
  have selected : GivenUp (reading.selector t (s ++ opening :: (b ++ closing :: rest))) rest := by
    unfold Reading.selector
    dsimp only
    split
    · rename_i named
      refine givenUp_selectorParts ?_ (fun u member => plain u (.tail _ member)) opens inside closes
      refine misnamed.cases_cons.resolve_left ?_
      rintro ⟨kind | kind, -⟩ <;> simp [isRuleName, show t.kind = _ from kind] at named
    · exact givenUp_selectorParts misnamed plain opens inside closes
  obtain ⟨problem, place, coded, read⟩ := selected
  refine ⟨problem, place, coded, ?_⟩
  unfold Reading.rule
  rw [read]

/-- A statement that is given up in a rule is reported, and the rule goes on in front of what ends it. -/
theorem statements_unassigned (whole : Opened front) (faithful : reading.Faithful front)
    (named : name.kind = .identifier) (missing : ∀ t ∈ v.head?, t.kind ≠ .colon)
    (inside : ∀ t ∈ v, t.kind ≠ .semicolon ∧ t.kind ≠ .closeBrace)
    (ends : ending.kind = .semicolon ∨ ending.kind = .closeBrace) :
    ∃ place, reading.statements (front ++ name :: (v ++ ending :: rest)) =
      (reading.statements (front ++ ending :: rest)).after
        [(Problem.missingColon name.text).diagnosedAt place] := by
  obtain ⟨earlier, declared, -, read⟩ := statements_opened whole faithful
  obtain ⟨place, lost⟩ := @body_unassigned reading declared name ending v rest named missing inside ends
  refine ⟨place, ?_⟩
  rw [read, read, lost]
  rfl

/-- A rule that is given up is reported, and reading goes on behind the first closing brace. -/
theorem statements_misnamed (whole : Items front) (faithful : reading.Faithful front)
    (directive : t.kind ≠ .directive) (misnamed : Misnamed ((t :: s).map Token.content))
    (plain : ∀ u ∈ t :: s, u.kind ∉ [.semicolon, .openBrace, .closeBrace])
    (opens : opening.kind = .openBrace) (inside : ∀ t ∈ b, t.kind ≠ .closeBrace)
    (closes : closing.kind = .closeBrace) :
    ∃ (problem : Problem) (place : Location), problem.code = .syntaxError ∧
      reading.statements (front ++ t :: (s ++ opening :: (b ++ closing :: rest))) =
        (reading.statements (front ++ rest)).after [problem.diagnosedAt place] := by
  obtain ⟨found, read⟩ := statements_items whole faithful
  obtain ⟨problem, place, coded, lost⟩ : GivenUp (reading.rule t _) rest :=
    givenUp_rule misnamed plain opens inside closes
  have semicolon : t.kind ≠ .semicolon := by
    have here := plain t List.mem_cons_self
    simp_all
  refine ⟨problem, place, coded, ?_⟩
  rw [read, read, statements_rule semicolon directive, lost]
  rfl

variable {one other : Reading} {ts us : List Token}

/-- Behind a sheet up to a place in a rule, which is alike in two texts, the same is read where the rest
of the rule is the same. -/
theorem Alike.opened (alike : Alike one other front front) (whole : Opened front)
    (faithful : one.Faithful front) (copied : other.Faithful front) :
    ∃ declared copy : PackageSheet.Rule, copy.placeless = declared.placeless ∧
      ∀ ts us, Matches Rule.placeless one other (one.body declared ts) (other.body copy us) →
        Matches (List.map Statement.placeless) one other (one.statements (front ++ ts))
          (other.statements (front ++ us)) := by
  obtain ⟨earlier, declared, alone, read⟩ := statements_opened whole faithful
  obtain ⟨others, copy, twin, copying⟩ := statements_opened whole copied
  have results := alike.statements.result
  rw [alone, twin, List.map_append, List.map_append] at results
  obtain ⟨before, own⟩ := List.append_inj' results rfl
  refine ⟨declared, copy, Statement.rule.inj (List.cons.inj own).1, fun ts us body => ?_⟩
  have later := body.rest.statements
  rw [read, copying]
  refine Matches.after ⟨?_, later.problems, later.rest⟩ body.problems
  simp only [Outcome.map, List.map_append, List.map_cons, before, later.result, Statement.placeless,
    body.result]

/-- Behind complete statements, which are alike in two texts, the same is read where what follows is
read the same. -/
theorem Alike.items (alike : Alike one other front front) (whole : Items front)
    (faithful : one.Faithful front) (copied : other.Faithful front)
    (later : Matches (List.map Statement.placeless) one other (one.statements ts)
      (other.statements us)) :
    Matches (List.map Statement.placeless) one other (one.statements (front ++ ts))
      (other.statements (front ++ us)) := by
  obtain ⟨found, read⟩ := statements_items whole faithful
  obtain ⟨others, copying⟩ := statements_items whole copied
  have alone := read []
  have twin := copying []
  rw [List.append_nil, statements_nil] at alone twin
  have results := alike.statements.result
  rw [alone, twin] at results
  have before : others.map Statement.placeless = found.map Statement.placeless := by
    simpa [Outcome.map] using results
  rw [read, copying]
  refine ⟨?_, later.problems, later.rest⟩
  simp only [Outcome.map, List.map_append, before, later.result]

end Reading

end PackageSheet
