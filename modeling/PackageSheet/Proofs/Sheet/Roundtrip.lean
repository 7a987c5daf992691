import PackageSheet.Proofs.Sheet.Acceptance
import PackageSheet.Proofs.Sheet.Writing

namespace PackageSheet

def Property.placeless (p : Property) : Property :=
  { p with location := {} }

def Rule.placeless (rule : Rule) : Rule :=
  { rule with properties := rule.properties.map Property.placeless, location := {} }

def Statement.placeless : Statement → Statement
  | .rule r => .rule r.placeless
  | .importFile target _ => .importFile target {}

def Rule.emptied (rule : Rule) (location : Location) : Rule :=
  { rule with properties := [], location, synthesized := false }

private theorem Rule.addToProperties_of_new {name : String} {ps : List Property} (values : List String)
    (location : Location) (new : name ∉ ps.map Property.name) :
    addToProperties name values location ps = ps ++ [⟨name, values, location⟩] := by
  induction ps with
  | nil => rfl
  | cons p ps ih =>
    simp only [List.map_cons, List.mem_cons, not_or] at new
    simp [addToProperties, Ne.symm new.1, ih new.2]

private theorem Rule.head_partsContents (r : Rule) : ∀ c ∈ r.partsContents.head?,
    c.1 = .dot ∨ c.1 = .hash ∨ c.1 = .selectorParameter := by
  obtain ⟨-, id, «class», parameter, -, -, -⟩ := r
  cases «class» <;> cases id <;> cases parameter <;>
    simp [partsContents, markedContents, parameterContents]

namespace Reading

variable {reading : Reading} {declared r : Rule} {ts rest : List Token} {opening closing : Token}

theorem value_literal {t : Token} {s : String} (spelled : t.content = literalContent s) :
    Grammar.Value False [t] ∧ reading.valueText [t] = s := by
  obtain ⟨kind, text⟩ := Prod.mk.inj spelled
  constructor
  · exact .token (by simp [Grammar.Separates, kind]) .nil
  · simp [valueText, Token.isString, kind, text]

private theorem values_literals {vs : List String} (valued : vs ≠ []) (full : ∀ v ∈ vs, v ≠ "")
    (spelled : ts.map Token.content = valuesContents vs) :
    Grammar.Values False ts ∧ (reading.values ts).result = vs := by
  induction vs generalizing ts with
  | nil => exact absurd rfl valued
  | cons first others ih =>
    obtain ⟨here, there⟩ := List.forall_mem_cons.mp full
    cases others with
    | nil =>
      obtain ⟨t, rfl, own⟩ := List.map_eq_singleton_iff.mp spelled
      obtain ⟨value, text⟩ := @value_literal reading t first own
      have read := @values_one False reading [t] [] value False.elim (by simp)
      exact ⟨.one value, by simp_all [listed]⟩
    | cons second others =>
      simp only [valuesContents, List.map_cons, List.intersperse_cons_cons,
        List.map_eq_cons_iff] at spelled
      obtain ⟨t, _, rfl, own, comma, more, rfl, sep, later⟩ := spelled
      obtain ⟨value, text⟩ := @value_literal reading t first own
      obtain ⟨values, result⟩ := @ih more (List.cons_ne_nil _ _) there later
      have sep : comma.kind = .comma := congrArg Prod.fst sep
      have read := @values_more reading comma more [t] value sep
      refine ⟨.more value sep values, ?_⟩
      rw [List.singleton_append] at read
      simp [read, text, here, listed, Outcome.map, result]

private theorem body_property_spelled {p : Property} (writable : p.Writable)
    {contents : List (TokenKind × String)}
    (spelled : ts.map Token.content = p.contents ++ contents) :
    ∃ location more, body reading declared (ts ++ rest) =
        body reading (declared.declare p.name p.values location) (more ++ rest) ∧
      more.map Token.content = contents := by
  simp only [Property.contents, List.cons_append, List.append_assoc, List.map_eq_cons_iff,
    List.map_eq_append_iff, List.nil_append] at spelled
  obtain ⟨name, _, rfl, named, colon, _, rfl, sep, vs, _, rfl, values, semicolon, more, rfl, ends,
    later⟩ := spelled
  obtain ⟨kind, text⟩ := Prod.mk.inj named
  have sep : colon.kind = .colon := congrArg Prod.fst sep
  have ends : semicolon.kind = .semicolon := congrArg Prod.fst ends
  obtain ⟨values, result⟩ := @values_literals reading vs _ writable.valued writable.full values
  refine ⟨reading.locate name, more, ?_, later⟩
  have read := @body_property False reading declared name colon vs (semicolon :: (more ++ rest))
    kind sep values False.elim (by simp [ends])
  simp only [List.cons_append, List.append_assoc]
  rw [read, body_semicolon ends, text, result]

private theorem body_spelled {ps : List Property} (writable : ∀ p ∈ ps, p.Writable)
    (distinct : ((declared.properties ++ ps).map Property.name).Nodup)
    (spelled : ts.map Token.content = ps.flatMap Property.contents)
    (closes : closing.kind = .closeBrace) :
    ∃ found, body reading declared (ts ++ closing :: rest) =
        ⟨{ declared with properties := declared.properties ++ found }, [], rest⟩ ∧
      found.map Property.placeless = ps.map Property.placeless := by
  induction ps generalizing declared ts with
  | nil =>
    obtain rfl := List.map_eq_nil_iff.mp spelled
    exact ⟨[], by simp [body_closeBrace closes], rfl⟩
  | cons p ps ih =>
    obtain ⟨here, there⟩ := List.forall_mem_cons.mp writable
    rw [List.flatMap_cons] at spelled
    obtain ⟨location, more, read, later⟩ :=
      @body_property_spelled reading declared ts (closing :: rest) p here _ spelled
    have new : p.name ∉ declared.properties.map Property.name := by
      rw [List.map_append, List.map_cons] at distinct
      exact fun known => (List.nodup_append.mp distinct).2.2 _ known _ List.mem_cons_self rfl
    have declares : declared.declare p.name p.values location =
        { declared with properties := declared.properties ++ [⟨p.name, p.values, location⟩] } := by
      rw [Rule.declare, Rule.addToProperties_of_new p.values location new]
    have still : (((declared.declare p.name p.values location).properties ++ ps).map
        Property.name).Nodup := by
      rw [declares]
      simpa using distinct
    obtain ⟨found, body, same⟩ := ih there still later
    refine ⟨⟨p.name, p.values, location⟩ :: found, ?_, ?_⟩
    · rw [read, body, declares]
      simp
    · simp [same, Property.placeless]

private theorem selectorParts_marked {mark : TokenKind × String} {name : Option String}
    (put : Option String → Rule) (free : put none = declared)
    (step : ∀ {t n : Token} {tokens : List Token}, t.kind = mark.1 → n.kind = .identifier →
      selectorParts reading declared (t :: n :: tokens) =
        selectorParts reading (put (some n.text)) tokens)
    (spelled : ts.map Token.content = Rule.markedContents mark name) :
    selectorParts reading declared (ts ++ rest) = selectorParts reading (put name) rest := by
  cases name with
  | none =>
    obtain rfl := List.map_eq_nil_iff.mp spelled
    rw [free]
    rfl
  | some name =>
    simp only [Rule.markedContents, Option.elim_some, List.map_eq_cons_iff,
      List.map_eq_nil_iff] at spelled
    obtain ⟨t, _, rfl, first, n, _, rfl, second, rfl⟩ := spelled
    obtain ⟨kind, rfl⟩ := Prod.mk.inj second
    exact step (congrArg Prod.fst first) kind

private theorem selectorParts_enclosed {parameter : Option String}
    (free : declared.parameter = none)
    (spelled : ts.map Token.content = Rule.parameterContents parameter) :
    selectorParts reading declared (ts ++ rest) =
      selectorParts reading { declared with parameter } rest := by
  cases parameter with
  | none =>
    obtain rfl := List.map_eq_nil_iff.mp spelled
    rw [← free]
    rfl
  | some text =>
    obtain ⟨t, rfl, own⟩ := List.map_eq_singleton_iff.mp spelled
    obtain ⟨kind, rfl⟩ := Prod.mk.inj own
    exact selectorParts_parameter kind free

private theorem selectorParts_spelled
    (free : declared.class = none ∧ declared.id = none ∧ declared.parameter = none)
    (spelled : ts.map Token.content = r.partsContents) (opens : opening.kind = .openBrace) :
    selectorParts reading declared (ts ++ opening :: rest) =
      ⟨some { declared with «class» := r.class, id := r.id, parameter := r.parameter }, [],
        rest⟩ := by
  simp only [Rule.partsContents, List.append_assoc, List.map_eq_append_iff] at spelled
  obtain ⟨first, _, rfl, «class», second, third, rfl, id, parameter⟩ := spelled
  have parameter := @selectorParts_enclosed reading
    { declared with «class» := r.class, id := r.id } third (opening :: rest) r.parameter free.2.2
    parameter
  rw [List.append_assoc, List.append_assoc,
    selectorParts_marked (fun name => { declared with «class» := name }) (by rw [← free.1])
      selectorParts_class «class»,
    selectorParts_marked (fun name => { declared with «class» := r.class, id := name })
      (by rw [← free.2.1]) selectorParts_id id,
    parameter, selectorParts_openBrace opens]

private theorem not_isRuleName_of_parts {t : Token} (spelled : ts.map Token.content = r.partsContents)
    (opens : opening.kind = .openBrace) (first : t ∈ (ts ++ opening :: rest).head?) :
    isRuleName t = false ∧ t.kind ≠ .semicolon ∧ t.kind ≠ .directive := by
  cases ts with
  | nil =>
    obtain rfl := Option.some.inj first
    simp [isRuleName, opens]
  | cons t ts =>
    obtain rfl := Option.some.inj first
    have head : t.content ∈ r.partsContents.head? := by
      rw [← spelled]
      rfl
    have kind : t.kind = .dot ∨ t.kind = .hash ∨ t.kind = .selectorParameter :=
      r.head_partsContents _ head
    rcases kind with kind | kind | kind <;> simp [isRuleName, kind]

private theorem selector_spelled {t : Token} {names parts : List Token}
    (named : names.map Token.content = Rule.nameContents r.name)
    (spelled : parts.map Token.content = r.partsContents) (opens : opening.kind = .openBrace)
    (whole : t :: ts = names ++ (parts ++ opening :: rest)) :
    reading.selector t ts =
        ⟨some (r.emptied (reading.locate t)), [], rest⟩ ∧
      t.kind ≠ .semicolon ∧ t.kind ≠ .directive := by
  have read := @selectorParts_spelled reading { name := r.name, location := reading.locate t } r
    parts rest opening ⟨rfl, rfl, rfl⟩ spelled opens
  by_cases nameless : r.name = ""
  · rw [Rule.nameContents, if_pos nameless, List.map_eq_nil_iff] at named
    rw [named, List.nil_append] at whole
    obtain ⟨other, kind⟩ := @not_isRuleName_of_parts r parts rest opening t spelled opens
      (whole ▸ rfl)
    refine ⟨?_, kind⟩
    rw [selector, other, whole, ← nameless]
    exact read
  · obtain ⟨name, rfl, kind, text⟩ : ∃ name, names = [name] ∧
        ((name.kind = .symbol ∧ name.text = "*") ∨ name.kind = .identifier) ∧
        name.text = r.name := by
      rw [Rule.nameContents, if_neg nameless] at named
      split at named
      · rename_i star
        obtain ⟨name, rfl, own⟩ := List.map_eq_singleton_iff.mp named
        obtain ⟨kind, text⟩ := Prod.mk.inj own
        exact ⟨name, rfl, .inl ⟨kind, text.trans star⟩, text⟩
      · obtain ⟨name, rfl, own⟩ := List.map_eq_singleton_iff.mp named
        obtain ⟨kind, text⟩ := Prod.mk.inj own
        exact ⟨name, rfl, .inr kind, text⟩
    obtain ⟨rfl, rfl⟩ := List.cons.inj whole
    have isName : isRuleName t = true := by
      rcases kind with ⟨kind, star⟩ | kind
      · simp [isRuleName, kind, star]
      · simp [isRuleName, kind]
    refine ⟨?_, by rcases kind with ⟨kind, -⟩ | kind <;> simp [kind]⟩
    rw [selector, isName, text]
    exact read

private theorem rule_spelled {t : Token} {contents : List (TokenKind × String)} (writable : r.Writable)
    (spelled : (t :: ts).map Token.content = r.contents ++ contents) :
    ∃ found more, reading.rule t ts = ⟨some found, [], more⟩ ∧ found.placeless = r.placeless ∧
      more.map Token.content = contents ∧ t.kind ≠ .semicolon ∧ t.kind ≠ .directive := by
  simp only [Rule.contents, List.append_assoc, List.cons_append, List.nil_append,
    List.map_eq_append_iff, List.map_eq_cons_iff] at spelled
  obtain ⟨names, _, whole, named, parts, _, rfl, selects, opening, _, rfl, opens, body, _, rfl,
    inside, closing, more, rfl, closes, later⟩ := spelled
  obtain ⟨selected, kind⟩ := @selector_spelled reading r ts _ opening t names parts named selects
    (congrArg Prod.fst opens) whole
  obtain ⟨found, filled, same⟩ := @body_spelled reading (r.emptied (reading.locate t)) body more
    closing r.properties writable.properties writable.distinct inside (congrArg Prod.fst closes)
  refine ⟨{ r.emptied (reading.locate t) with properties := found }, more, ?_, ?_, later, kind⟩
  · have proper : ¬ (r.emptied (reading.locate t)).Nameless := writable.proper
    rw [rule_eq (congrArg Outcome.result selected), selected, if_neg proper, filled]
    rfl
  · simp [Rule.placeless, Rule.emptied, same, writable.real]

private theorem directive_spelled {t : Token} {target : String} {location : Location}
    {contents : List (TokenKind × String)} (full : target ≠ "")
    (spelled : (t :: ts).map Token.content =
      (Statement.importFile target location).contents ++ contents) :
    ∃ more, reading.directive t ts =
        ⟨some (.importFile target (reading.locate t)), [], more⟩ ∧
      more.map Token.content = contents ∧ t.kind = .directive := by
  simp only [Statement.contents, List.cons_append, List.nil_append, List.map_eq_cons_iff]
    at spelled
  obtain ⟨_, _, whole, begins, value, _, rfl, own, ending, more, rfl, ends, later⟩ := spelled
  obtain ⟨rfl, rfl⟩ := List.cons.inj whole
  obtain ⟨kind, begins⟩ := Prod.mk.inj begins
  obtain ⟨proper, text⟩ := @value_literal reading value target own
  have ended : nextIs .semicolon (ending :: more) = true :=
    nextIs_iff.mpr ⟨ending, more, rfl, congrArg Prod.fst ends⟩
  have read := @directive_append reading t [value] (ending :: more) False begins proper
    False.elim (text ▸ full) (.inr ended)
  rw [text] at read
  exact ⟨more, read, later, kind⟩

private theorem statement_spelled {statement : Statement} {contents : List (TokenKind × String)}
    (writable : statement.Writable) (spelled : ts.map Token.content = statement.contents ++ contents) :
    ∃ found more, statements reading ts = (statements reading more).map (found :: ·) ∧
      found.placeless = statement.placeless ∧ more.map Token.content = contents := by
  cases statement with
  | rule r =>
    cases ts with
    | nil => simp [Statement.contents, Rule.contents] at spelled
    | cons t ts =>
      obtain ⟨found, more, read, same, later, semicolon, directive⟩ :=
        @rule_spelled reading r ts t contents writable spelled
      refine ⟨.rule found, more, ?_, congrArg Statement.rule same, later⟩
      rw [statements_rule semicolon directive, read]
      rfl
  | importFile target location =>
    cases ts with
    | nil => simp [Statement.contents] at spelled
    | cons t ts =>
      obtain ⟨more, read, later, kind⟩ :=
        @directive_spelled reading ts t target location contents writable spelled
      refine ⟨.importFile target (reading.locate t), more, ?_, rfl, later⟩
      rw [statements_directive kind, read]
      rfl

private theorem statements_spelled {written : List Statement}
    (writable : ∀ statement ∈ written, statement.Writable)
    (spelled : ts.map Token.content = written.flatMap Statement.contents) :
    (statements reading ts).problems = [] ∧
      (statements reading ts).result.map Statement.placeless =
        written.map Statement.placeless := by
  induction written generalizing ts with
  | nil =>
    obtain rfl := List.map_eq_nil_iff.mp spelled
    rw [statements]
    exact ⟨rfl, rfl⟩
  | cons first others ih =>
    obtain ⟨here, there⟩ := List.forall_mem_cons.mp writable
    rw [List.flatMap_cons] at spelled
    obtain ⟨found, more, read, same, later⟩ := @statement_spelled reading ts first _ here spelled
    obtain ⟨clean, rest⟩ := ih there later
    rw [read]
    exact ⟨clean, by simp [Outcome.map, same, rest]⟩

end Reading

private theorem valuesContents_known (values : List String) :
    ∀ c ∈ valuesContents values, c.1 ≠ .unknown := by
  induction values with
  | nil => exact List.forall_mem_nil _
  | cons first others ih =>
    cases others with
    | nil => simp [valuesContents, literalContent]
    | cons second others => simpa [valuesContents, literalContent] using ih

private theorem Property.contents_known (p : Property) : ∀ c ∈ p.contents, c.1 ≠ .unknown := by
  have values := valuesContents_known p.values
  simpa [Property.contents, or_imp, forall_and] using values

private theorem Rule.contents_known (r : Rule) : ∀ c ∈ r.contents, c.1 ≠ .unknown := by
  have name : ∀ c ∈ nameContents r.name, c.1 ≠ .unknown := by
    unfold nameContents
    split
    · exact List.forall_mem_nil _
    · split <;> simp
  have parts : ∀ c ∈ r.partsContents, c.1 ≠ .unknown := by
    obtain ⟨-, id, «class», parameter, -, -, -⟩ := r
    cases «class» <;> cases id <;> cases parameter <;>
      simp [partsContents, markedContents, parameterContents]
  have properties : ∀ c ∈ r.properties.flatMap Property.contents, c.1 ≠ .unknown := by
    intro c member
    obtain ⟨p, -, own⟩ := List.mem_flatMap.mp member
    exact p.contents_known c own
  simp only [contents, List.forall_mem_append, List.forall_mem_cons]
  exact ⟨⟨name, parts⟩, by simp, properties, by simp, List.forall_mem_nil _⟩

namespace Statement

private theorem contents_known (statement : Statement) :
    ∀ c ∈ statement.contents, c.1 ≠ .unknown := by
  cases statement with
  | rule r => exact r.contents_known
  | importFile target location => simp [contents, literalContent]

/-- Reading undoes writing: nothing is reported, and the statements that were written are read, in
their order and equal up to places. -/
theorem read_writtenAll {statements : List Statement} (file : Option Path)
    (writable : ∀ statement ∈ statements, statement.Writable) :
    (ofText (writtenAll statements) file).2 = [] ∧
      (ofText (writtenAll statements) file).1.map placeless = statements.map placeless := by
  have spelled : (Token.ofText .hyphenated (writtenAll statements)).map Token.content =
      statements.flatMap Statement.contents :=
    spells_writtenAll writable [] _ (lexed_ofText .hyphenated (writtenAll statements))
  have known : ∀ t ∈ Token.ofText .hyphenated (writtenAll statements), t.kind ≠ .unknown := by
    intro t member
    have own : t.content ∈ statements.flatMap Statement.contents := by
      rw [← spelled]
      exact List.mem_map_of_mem member
    obtain ⟨statement, -, own⟩ := List.mem_flatMap.mp own
    exact statement.contents_known _ own
  have kept : (Token.ofText .hyphenated (writtenAll statements)).filter (·.kind != .unknown) =
      Token.ofText .hyphenated (writtenAll statements) :=
    List.filter_eq_self.mpr fun t member => bne_iff_ne.mpr (known t member)
  have none : (Token.ofText .hyphenated (writtenAll statements)).filter (·.kind == .unknown) =
      [] :=
    List.filter_eq_nil_iff.mpr fun t member unknown => known t member (beq_iff_eq.mp unknown)
  obtain ⟨clean, read⟩ := @Reading.statements_spelled
    ⟨(writtenAll statements).toList, file,
      (Token.ofText .hyphenated (writtenAll statements)).getLast?⟩ _ statements writable spelled
  simp only [ofText, kept, none, List.map_nil, List.nil_append]
  exact ⟨clean, read⟩

/-- Statements whose values hold what would end a literal, a property or a rule, or open a comment
or a group. -/
def tangled : List Statement :=
  [.importFile "a\x22; // b" {},
    .rule { name := "*", «class» := some "x64", parameter := some "a [/*] b"
            properties := [⟨"include", ["$\x7bx\x7d,", "\x22\x22", "\n"], {}⟩,
              ⟨"trim-path", ["\x7d"], {}⟩] }]

theorem read_tangled :
    writtenAll tangled = "@import @\x22a\x22\x22; // b\x22;\n*.x64[a [/*] b] \x7b " ++
        "include: @\x22$\x7bx\x7d,\x22, @\x22\x22\x22\x22\x22\x22, @\x22\n\x22;" ++
        "trim-path: @\x22\x7d\x22;\x7d" ∧
    (ofText (writtenAll tangled) none).2 = [] ∧
      (ofText (writtenAll tangled) none).1.map placeless = tangled := by
  have parameter : Balanced "a [/*] b".toList :=
    .other (by decide) (.other (by decide) (.nested (.other (by decide) (.other (by decide) .nil))
      (.other (by decide) (.other (by decide) .nil))))
  have writable : ∀ statement ∈ tangled, statement.Writable := by
    have target : "a\x22; // b" ≠ "" := by decide
    refine List.forall_mem_cons.mpr ⟨target, List.forall_mem_singleton.mpr ?_⟩
    exact {
      named := .inr (.inl rfl)
      «class» := by decide
      id := by simp
      parameter := by
        rintro _ ⟨⟩
        refine ⟨parameter, ?_, ?_⟩ <;> · rintro _ ⟨⟩; rfl
      proper := by decide
      properties := List.forall_mem_cons.mpr ⟨⟨by decide, by decide, by decide⟩,
        List.forall_mem_singleton.mpr ⟨by decide, by decide, by decide⟩⟩
      distinct := by decide
      real := rfl }
  exact ⟨by decide, read_writtenAll none writable⟩

end Statement

end PackageSheet
