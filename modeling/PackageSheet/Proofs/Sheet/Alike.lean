import PackageSheet.Proofs.Sheet.Roundtrip
import PackageSheet.Proofs.Token.Joining

/-!
Reading the same text in two surroundings. The tokens of a text that stands inside two others are alike
(`Reading.alike_of_lexed`): they say the same, and a value that is taken as it is written is the same.
From tokens that are alike each way of reading yields the same but for places, with the same reports,
and leaves tokens that are alike (`Reading.Alike.statements`).
-/

namespace PackageSheet

open String (utf8Len)

def Diagnostic.placeless (d : Diagnostic) : Diagnostic :=
  { d with location := none }

namespace Rule

variable {rule copy : Rule}

private theorem placeless_declare (same : copy.placeless = rule.placeless) (name : String)
    (values : List String) (place other : Location) :
    (copy.declare name values other).placeless = (rule.declare name values place).placeless := by
  have added (properties : List Property) (place : Location) :
      (addToProperties name values place properties).map Property.placeless =
        addToProperties name values {} (properties.map Property.placeless) := by
    induction properties with
    | nil => rfl
    | cons p ps ih =>
      rw [List.map_cons, addToProperties, addToProperties]
      by_cases own : (p.name == name) = true
      · rw [if_pos own, if_pos (by exact own)]
        rfl
      · rw [if_neg own, if_neg (by exact own), List.map_cons, ih]
  obtain ⟨⟩ := rule
  obtain ⟨⟩ := copy
  simp only [placeless, declare, mk.injEq] at same ⊢
  simp [same, added]

theorem selector_of_placeless (same : copy.placeless = rule.placeless) :
    copy.name = rule.name ∧ copy.id = rule.id ∧ copy.class = rule.class ∧
      copy.parameter = rule.parameter := by
  obtain ⟨⟩ := rule
  obtain ⟨⟩ := copy
  simp_all [placeless]

theorem selectorText_of_placeless (same : copy.placeless = rule.placeless) :
    copy.selectorText = rule.selectorText := by
  obtain ⟨name, id, «class», parameter⟩ := selector_of_placeless same
  rw [selectorText, selectorText, name, id, «class», parameter]

end Rule

namespace Reading

variable {front ahead cs rest more : List Char} {start stop offset : Nat}

private theorem slice_behind (later : offset + utf8Len front ≤ start) :
    slice start stop offset (front ++ cs) = slice start stop (offset + utf8Len front) cs := by
  induction front generalizing offset with
  | nil => rfl
  | cons c front ih =>
    have some := c.utf8Size_pos
    rw [String.utf8Len_cons] at later
    rw [List.cons_append, slice, if_pos (by omega), ih (by omega), String.utf8Len_cons, Nat.add_assoc,
      Nat.add_comm c.utf8Size]

private theorem slice_offset (shift : Nat) :
    slice (shift + start) (shift + stop) (shift + offset) cs = slice start stop offset cs := by
  induction cs generalizing offset with
  | nil => rfl
  | cons c cs ih =>
    simp only [slice, Nat.add_lt_add_iff_left, Nat.add_assoc, ih]

private theorem slice_eq_nil (past : stop ≤ offset) : slice start stop offset cs = [] := by
  induction cs generalizing offset with
  | nil => rfl
  | cons c cs ih =>
    rw [slice, ih (by omega), if_neg (Nat.not_lt.mpr past), ite_self]

private theorem slice_within (within : stop ≤ offset + utf8Len cs) :
    slice start stop offset (cs ++ rest) = slice start stop offset cs := by
  induction cs generalizing offset with
  | nil => exact slice_eq_nil within
  | cons c cs ih =>
    rw [String.utf8Len_cons] at within
    rw [List.cons_append, slice, slice, ih (by omega)]

theorem slice_between (within : stop ≤ utf8Len cs) :
    slice (utf8Len front + start) (utf8Len front + stop) 0 (front ++ (cs ++ rest)) =
      slice start stop 0 cs := by
  have behind := @slice_behind front (cs ++ rest) (utf8Len front + start) (utf8Len front + stop) 0
    (by omega)
  rw [behind, Nat.zero_add]
  have offset := @slice_offset (cs ++ rest) start stop 0 (utf8Len front)
  rw [Nat.add_zero] at offset
  exact offset.trans (slice_within (by omega))

variable {one other : Reading} {t u : Token} {ts us : List Token}

/-- Tokens of two texts that say the same. What is taken as it is written from some of them is the same
in both texts. -/
inductive Alike (one other : Reading) : List Token → List Token → Prop where
  | nil : Alike one other [] []
  | cons {t u : Token} {ts us : List Token} (content : u.content = t.content)
      (values : ∀ n, other.valueText ((u :: us).take n) = one.valueText ((t :: ts).take n))
      (rest : Alike one other ts us) : Alike one other (t :: ts) (u :: us)

private theorem valueText_of_moved (first : one.source = front ++ (cs ++ rest))
    (second : other.source = ahead ++ (cs ++ more))
    (moved : List.Forall₂ (Token.Moved (utf8Len front) (utf8Len ahead) (utf8Len cs)) ts us) :
    other.valueText us = one.valueText ts := by
  have contents := Token.content_of_moved moved
  have strings : us.all Token.isString = ts.all Token.isString := by
    have same (tokens : List Token) : tokens.all Token.isString =
        (tokens.map Token.content).all (fun c => c.1 == .stringLiteral || c.1 == .atStringLiteral) := by
      rw [List.all_map]
      rfl
    rw [same, same, contents]
  have texts : us.map Token.text = ts.map Token.text := by
    have same (tokens : List Token) : tokens.map Token.text =
        (tokens.map Token.content).map Prod.snd := by
      rw [List.map_map]
      rfl
    rw [same, same, contents]
  cases moved with
  | nil => rfl
  | @cons t u ts us own others =>
    obtain ⟨last, copy, final, finalCopy, -, start, stop, -, lastStop, -, copyStop, within⟩ :=
      Token.exists_getLast_of_moved own others
    obtain ⟨-, start, -, firstStart, -, copyStart, -⟩ := own
    unfold valueText
    rw [final, finalCopy]
    simp only [strings, texts]
    rw [firstStart, copyStart, lastStop, copyStop, first, second, slice_between within,
      slice_between within]

private theorem alike_of_moved (first : one.source = front ++ (cs ++ rest))
    (second : other.source = ahead ++ (cs ++ more))
    (moved : List.Forall₂ (Token.Moved (utf8Len front) (utf8Len ahead) (utf8Len cs)) ts us) :
    Alike one other ts us := by
  induction moved with
  | nil => exact .nil
  | cons own others ih =>
    refine .cons own.content (fun n => valueText_of_moved first second ?_) ih
    exact List.forall₂_take n (.cons own others)

/-- The tokens of known classes of a text in two others are alike. -/
theorem alike_of_lexed {dialect : Dialect} (first : one.source = front ++ (cs ++ rest))
    (second : other.source = ahead ++ (cs ++ more)) (lexed : Lexed dialect front cs ts)
    (copied : Lexed dialect ahead cs us) :
    Alike one other (ts.filter (·.kind != .unknown)) (us.filter (·.kind != .unknown)) := by
  refine alike_of_moved first second (List.rel_filter ?_ (lexed.moved copied))
  intro t u moved
  have kinds : u.kind = t.kind := congrArg Prod.fst moved.content
  exact iff_of_eq (congrArg (fun kind => (kind != TokenKind.unknown) = true) kinds.symm)

namespace Alike

theorem drop (alike : Alike one other ts us) (n : Nat) : Alike one other (ts.drop n) (us.drop n) := by
  induction n generalizing ts us with
  | zero => exact alike
  | succ n ih =>
    cases alike with
    | nil => exact .nil
    | cons content values rest => exact ih rest

private theorem valueText_take (alike : Alike one other ts us) (n : Nat) :
    other.valueText (us.take n) = one.valueText (ts.take n) := by
  cases alike with
  | nil => rw [List.take_nil]; rfl
  | cons content values rest => exact values n

theorem nextIs_eq (alike : Alike one other ts us) (kind : TokenKind) :
    nextIs kind us = nextIs kind ts := by
  cases alike with
  | nil => rfl
  | cons content values rest => exact congrArg (fun c : TokenKind × String => c.1 == kind) content

private theorem isEmpty_eq (alike : Alike one other ts us) : us.isEmpty = ts.isEmpty := by
  cases alike with
  | nil => rfl
  | cons => rfl

theorem skipTo (alike : Alike one other ts us) (stops : List TokenKind) :
    Alike one other (skipTo stops ts) (Reading.skipTo stops us) := by
  induction alike with
  | nil => exact .nil
  | @cons t u ts us content values rest ih =>
    have kinds : u.kind = t.kind := congrArg Prod.fst content
    unfold Reading.skipTo
    rw [List.dropWhile_cons, List.dropWhile_cons, kinds]
    split
    · exact ih
    · exact .cons content values rest

theorem skipPast (alike : Alike one other ts us) (stops : List TokenKind) :
    Alike one other (skipPast stops ts) (Reading.skipPast stops us) :=
  (alike.skipTo stops).drop 1

private theorem skipBlock (alike : Alike one other ts us) :
    Alike one other (skipBlock ts) (Reading.skipBlock us) := by
  have found := alike.skipTo [.semicolon, .openBrace, .closeBrace]
  unfold Reading.skipBlock
  dsimp only
  rw [found.nextIs_eq]
  split
  · exact found.skipPast _
  · exact found.drop 1

private theorem splitValue (alike : Alike one other ts us) (group : Bool) :
    ∃ n, (splitValue group ts).1 = ts.take n ∧ (Reading.splitValue group us).1 = us.take n ∧
      Alike one other (Reading.splitValue group ts).2 (Reading.splitValue group us).2 := by
  induction alike generalizing group with
  | nil => cases group <;> exact ⟨0, rfl, rfl, .nil⟩
  | @cons t u ts us content values rest ih =>
    obtain ⟨kinds, texts⟩ := Prod.mk.inj content
    have longer (within : Bool) (own : Reading.splitValue group (t :: ts) =
        (t :: (Reading.splitValue within ts).1, (Reading.splitValue within ts).2))
        (copied : Reading.splitValue group (u :: us) =
        (u :: (Reading.splitValue within us).1, (Reading.splitValue within us).2)) :
        ∃ n, (Reading.splitValue group (t :: ts)).1 = (t :: ts).take n ∧
          (Reading.splitValue group (u :: us)).1 = (u :: us).take n ∧
          Alike one other (Reading.splitValue group (t :: ts)).2
            (Reading.splitValue group (u :: us)).2 := by
      obtain ⟨n, first, second, later⟩ := ih within
      refine ⟨n + 1, ?_, ?_, ?_⟩
      · rw [own, first, List.take_succ_cons]
      · rw [copied, second, List.take_succ_cons]
      · rw [own, copied]
        exact later
    cases group with
    | true => exact longer (t.kind != .closeBrace) rfl (by rw [Reading.splitValue, kinds])
    | false =>
      by_cases separates : Grammar.Separates t
      · have copied : Grammar.Separates u := by
          unfold Grammar.Separates at separates ⊢
          rwa [kinds]
        rw [splitValue_separator separates, splitValue_separator copied]
        exact ⟨0, rfl, rfl, .cons content values rest⟩
      · have copied : ¬ Grammar.Separates u := by
          unfold Grammar.Separates at separates ⊢
          rwa [kinds]
        refine longer _ (splitValue_token separates) ?_
        rw [splitValue_token copied, kinds, texts, rest.nextIs_eq]

end Alike

/-- An outcome that is the same as another one but for places, and leaves tokens that are alike. -/
structure Matches {α : Type} (clear : α → α) (one other : Reading) (outcome copy : Outcome α) :
    Prop where
  result : clear copy.result = clear outcome.result
  problems : copy.problems.map Diagnostic.placeless = outcome.problems.map Diagnostic.placeless
  rest : Alike one other outcome.rest copy.rest

theorem Matches.after {α : Type} {clear : α → α} {outcome copy : Outcome α}
    {problems copied : List Diagnostic} (same : Matches clear one other outcome copy)
    (reports : copied.map Diagnostic.placeless = problems.map Diagnostic.placeless) :
    Matches clear one other (outcome.after problems) (copy.after copied) where
  result := same.result
  problems := by
    rw [Outcome.after, Outcome.after, List.map_append, List.map_append, same.problems, reports]
  rest := same.rest

namespace Alike

variable {declared copy : PackageSheet.Rule} {name twin : Token}

theorem value (alike : Alike one other ts us) :
    Matches id one other (one.value ts) (other.value us) := by
  obtain ⟨n, first, second, rest⟩ := alike.splitValue false
  refine ⟨?_, rfl, rest⟩
  change other.valueText _ = one.valueText _
  rw [first, second]
  exact alike.valueText_take n

private theorem values (alike : Alike one other ts us) :
    Matches id one other (one.values ts) (other.values us) := by
  fun_induction Reading.values one ts generalizing us with
  | case1 ts first found comma =>
    rename_i ih
    obtain ⟨result, -, rest⟩ := alike.value
    have same : (other.value us).result = (one.value ts).result := result
    have later := ih (rest.drop 1)
    have own : (other.values ((other.value us).rest.drop 1)).result =
        (one.values (first.rest.drop 1)).result := later.result
    rw [Reading.values.eq_def other us, dif_pos (rest.nextIs_eq .comma ▸ comma), same]
    exact ⟨congrArg (found ++ ·) own, later.problems, later.rest⟩
  | case2 ts first found =>
    rename_i single
    obtain ⟨result, -, rest⟩ := alike.value
    have same : (other.value us).result = (one.value ts).result := result
    rw [Reading.values.eq_def other us, dif_neg (rest.nextIs_eq .comma ▸ single), same]
    exact ⟨rfl, rfl, rest⟩

private theorem property (alike : Alike one other ts us) (named : twin.content = name.content)
    (same : copy.placeless = declared.placeless) :
    Matches Rule.placeless one other (one.property declared name ts) (other.property copy twin us) := by
  have names : twin.text = name.text := congrArg Prod.snd named
  unfold Reading.property
  rw [alike.nextIs_eq, names]
  split
  · exact ⟨same, rfl, alike.skipTo _⟩
  · obtain ⟨result, -, rest⟩ := (alike.drop 1).values
    have values : (other.values (us.drop 1)).result = (one.values (ts.drop 1)).result := result
    have filled := Rule.placeless_declare same name.text (one.values (ts.drop 1)).result
      (one.locate name) (other.locate twin)
    dsimp only
    rw [values]
    generalize (one.values (ts.drop 1)).rest = left at rest
    generalize (other.values (us.drop 1)).rest = copied at rest
    cases rest with
    | nil => exact ⟨filled, rfl, .nil⟩
    | @cons t u ts us content values rest =>
      have kinds : u.kind = t.kind := congrArg Prod.fst content
      have both : Alike one other (t :: ts) (u :: us) := .cons content values rest
      dsimp only
      rw [kinds]
      split
      · exact ⟨filled, rfl, both⟩
      · exact ⟨filled, rfl, both.skipTo _⟩

theorem body (alike : Alike one other ts us) (same : copy.placeless = declared.placeless) :
    Matches Rule.placeless one other (one.body declared ts) (other.body copy us) := by
  fun_induction Reading.body one declared ts generalizing copy us with
  | case1 rule =>
    cases alike
    rw [Reading.body, Rule.selectorText_of_placeless same]
    exact ⟨same, rfl, .nil⟩
  | case2 rule t ts kind =>
    cases alike with
    | cons content values rest =>
      rw [body_closeBrace ((congrArg Prod.fst content).trans kind)]
      exact ⟨same, rfl, rest⟩
  | case3 rule t ts kind ih =>
    cases alike with
    | cons content values rest =>
      rw [body_semicolon ((congrArg Prod.fst content).trans kind)]
      exact ih rest same
  | case4 rule t ts kind found =>
    rename_i ih
    cases alike with
    | @cons t u ts us content values rest =>
      have kinds : u.kind = .identifier := (congrArg Prod.fst content).trans kind
      obtain ⟨result, problems, left⟩ := rest.property content same
      rw [Reading.body.eq_def other]
      dsimp only
      rw [kinds]
      exact (ih left result).after problems
  | case5 rule t ts close semicolon identifier ih =>
    cases alike with
    | @cons t u ts us content values rest =>
      have kinds : u.kind = t.kind := congrArg Prod.fst content
      rw [Reading.body.eq_def other]
      dsimp only
      rw [kinds]
      split
      · contradiction
      · contradiction
      · contradiction
      · exact (ih (rest.skipTo _) same).after rfl

private theorem abandon (alike : Alike one other ts us) (problem : Problem) :
    Matches (Option.map Rule.placeless) one other (one.abandon problem ts)
      (other.abandon problem us) :=
  ⟨rfl, rfl, alike.skipBlock⟩

theorem exists_cons (alike : Alike one other (t :: ts) us) :
    ∃ u vs, us = u :: vs ∧ u.kind = t.kind ∧ u.text = t.text ∧ Alike one other ts vs := by
  cases alike with
  | cons content values rest =>
    obtain ⟨kinds, texts⟩ := Prod.mk.inj content
    exact ⟨_, _, rfl, kinds, texts, rest⟩

private theorem selectorParts (alike : Alike one other ts us)
    (same : copy.placeless = declared.placeless) :
    Matches (Option.map Rule.placeless) one other (one.selectorParts declared ts)
      (other.selectorParts copy us) := by
  have shown {rule copy : PackageSheet.Rule} (same : copy.placeless = rule.placeless) :=
    Rule.selectorText_of_placeless same
  fun_induction Reading.selectorParts one declared ts generalizing copy us with
  | case1 rule =>
    cases alike
    rw [Reading.selectorParts, shown same]
    exact Alike.nil.abandon _
  | case2 rule t kind n ns identifier ih =>
    obtain ⟨u, us, rfl, kinds, -, rest⟩ := alike.exists_cons
    obtain ⟨w, us, rfl, named, texts, rest⟩ := rest.exists_cons
    rw [selectorParts_class (kinds.trans kind) (named.trans identifier), texts]
    exact ih rest (congrArg (fun rule : PackageSheet.Rule => { rule with «class» := some n.text }) same)
  | case5 rule t kind n ns identifier ih =>
    obtain ⟨u, us, rfl, kinds, -, rest⟩ := alike.exists_cons
    obtain ⟨w, us, rfl, named, texts, rest⟩ := rest.exists_cons
    rw [selectorParts_id (kinds.trans kind) (named.trans identifier), texts]
    exact ih rest (congrArg (fun rule : PackageSheet.Rule => { rule with id := some n.text }) same)
  | case3 rule t kind n ns other =>
    obtain ⟨u, us, rfl, kinds, -, rest⟩ := alike.exists_cons
    have unnamed : nextIs .identifier (n :: ns) = false := by simpa [nextIs] using other
    rw [selectorParts_unnamedClass (kinds.trans kind) (rest.nextIs_eq _ ▸ unnamed)]
    exact rest.abandon _
  | case6 rule t kind n ns other =>
    obtain ⟨u, us, rfl, kinds, -, rest⟩ := alike.exists_cons
    have unnamed : nextIs .identifier (n :: ns) = false := by simpa [nextIs] using other
    rw [selectorParts_unnamedId (kinds.trans kind) (rest.nextIs_eq _ ▸ unnamed)]
    exact rest.abandon _
  | case4 rule t kind =>
    obtain ⟨u, us, rfl, kinds, -, rest⟩ := alike.exists_cons
    rw [selectorParts_unnamedClass (kinds.trans kind) (rest.nextIs_eq _)]
    exact rest.abandon _
  | case7 rule t kind =>
    obtain ⟨u, us, rfl, kinds, -, rest⟩ := alike.exists_cons
    rw [selectorParts_unnamedId (kinds.trans kind) (rest.nextIs_eq _)]
    exact rest.abandon _
  | case8 rule t ts kind =>
    obtain ⟨u, us, rfl, kinds, -, rest⟩ := alike.exists_cons
    rw [selectorParts_openBrace (kinds.trans kind)]
    exact ⟨congrArg some same, rfl, rest⟩
  | case9 rule t ts free _ _ _ ih =>
    obtain ⟨u, us, rfl, kinds, texts, rest⟩ := alike.exists_cons
    have unset : copy.parameter = none := by
      rw [(Rule.selector_of_placeless same).2.2.2, free.2]
    rw [selectorParts_parameter (kinds.trans free.1) unset, texts]
    exact ih rest
      (congrArg (fun rule : PackageSheet.Rule => { rule with parameter := some t.text }) same)
  | case10 rule t ts unread dot hash opening =>
    have after := alike.abandon
    obtain ⟨u, us, rfl, kinds, -, -⟩ := alike.exists_cons
    have parameters : copy.parameter = rule.parameter := (Rule.selector_of_placeless same).2.2.2
    rw [selectorParts_unopened (by rw [kinds, not_or]; exact ⟨dot, hash⟩) (kinds ▸ opening)
      (by rwa [kinds, parameters]), shown same]
    exact after _

private theorem selector (alike : Alike one other ts us) (both : Alike one other (t :: ts) (u :: us)) :
    Matches (Option.map Rule.placeless) one other (one.selector t ts) (other.selector u us) := by
  obtain ⟨_, _, ⟨⟩, kinds, texts, -⟩ := both.exists_cons
  have named : isRuleName u = isRuleName t := by rw [isRuleName, isRuleName, kinds, texts]
  unfold Reading.selector
  dsimp only
  rw [named, texts]
  split
  · exact alike.selectorParts rfl
  · exact both.selectorParts rfl

private theorem rule (alike : Alike one other ts us) (both : Alike one other (t :: ts) (u :: us)) :
    Matches (Option.map Rule.placeless) one other (one.rule t ts) (other.rule u us) := by
  have selected := alike.selector both
  unfold Reading.rule
  dsimp only
  cases found : (one.selector t ts).result with
  | none =>
    have none : (other.selector u us).result = none := by
      have result := selected.result
      rw [found] at result
      exact Option.map_eq_none_iff.mp result
    rw [none]
    exact selected
  | some rule =>
    obtain ⟨copy, copied, same⟩ : ∃ copy, (other.selector u us).result = some copy ∧
        copy.placeless = rule.placeless := by
      have result := selected.result
      rw [found] at result
      exact Option.map_eq_some_iff.mp result
    have body := selected.rest.body same
    obtain ⟨name, id, «class», -⟩ := Rule.selector_of_placeless same
    rw [copied]
    dsimp only
    rw [name, id, «class»]
    refine Matches.after ⟨congrArg some body.result, body.problems, body.rest⟩ ?_
    rw [List.map_append, List.map_append, selected.problems]
    split <;> rfl

private theorem importEnd (alike : Alike one other ts us) :
    Matches id one other (one.importEnd ts) (other.importEnd us) := by
  unfold Reading.importEnd
  rw [alike.isEmpty_eq, alike.nextIs_eq]
  split
  · exact ⟨rfl, rfl, alike.drop 1⟩
  · exact ⟨rfl, rfl, alike.skipPast _⟩

private theorem directive (alike : Alike one other ts us) (texts : u.text = t.text) :
    Matches (Option.map Statement.placeless) one other (one.directive t ts)
      (other.directive u us) := by
  have target := alike.value
  have ending := target.rest.importEnd
  have same : (other.value us).result = (one.value ts).result := target.result
  unfold Reading.directive
  dsimp only
  rw [texts, same]
  split
  · exact ⟨rfl, rfl, alike.skipPast _⟩
  · split
    · refine ⟨rfl, ?_, ending.rest⟩
      rw [List.map_append, List.map_append, ending.problems]
      rfl
    · exact ⟨rfl, ending.problems, ending.rest⟩

private theorem map_toList_append {one other : Option Statement} {ones others : List Statement}
    (first : other.map Statement.placeless = one.map Statement.placeless)
    (later : others.map Statement.placeless = ones.map Statement.placeless) :
    (other.toList ++ others).map Statement.placeless = (one.toList ++ ones).map Statement.placeless := by
  rw [List.map_append, List.map_append, ← Option.toList_map, ← Option.toList_map, first, later]

/-- From tokens that are alike the same statements are read but for places, with the same reports. -/
theorem statements (alike : Alike one other ts us) :
    Matches (List.map Statement.placeless) one other (one.statements ts) (other.statements us) := by
  fun_induction Reading.statements one ts generalizing us with
  | case1 =>
    cases alike
    rw [Reading.statements]
    exact ⟨rfl, rfl, .nil⟩
  | case2 t ts kind ih =>
    obtain ⟨u, us, rfl, kinds, -, rest⟩ := alike.exists_cons
    rw [statements_semicolon (kinds.trans kind)]
    exact ih rest
  | case3 t ts kind found =>
    rename_i ih
    obtain ⟨u, us, rfl, kinds, texts, rest⟩ := alike.exists_cons
    obtain ⟨result, problems, left⟩ := rest.directive texts
    have later := ih left
    rw [statements_directive (kinds.trans kind)]
    exact Matches.after ⟨map_toList_append result later.result, later.problems, later.rest⟩ problems
  | case4 t ts found semicolon directive =>
    rename_i ih
    obtain ⟨u, vs, rfl, kinds, texts, rest⟩ := alike.exists_cons
    obtain ⟨result, problems, left⟩ := rest.rule alike
    have later := ih left
    have rules : ((other.rule u vs).result.map Statement.rule).map Statement.placeless =
        (found.result.map Statement.rule).map Statement.placeless := by
      have placed (read : Option PackageSheet.Rule) : (read.map Statement.rule).map Statement.placeless =
          (read.map Rule.placeless).map Statement.rule := by
        cases read <;> rfl
      rw [placed, placed, result]
    rw [statements_rule (kinds ▸ semicolon) (kinds ▸ directive)]
    exact Matches.after ⟨map_toList_append rules later.result, later.problems, later.rest⟩ problems

end Alike

end Reading

end PackageSheet
