import PackageSheet.Proofs.Sheet.Body
import PackageSheet.Proofs.Sheet.Selector
import PackageSheet.Proofs.Sheet.Source

/-!
Reading accepts exactly the grammar (`syntaxError_free_iff`): no syntax error is reported if and
only if the tokens of known classes are those of a sheet. Whatever reading reports is a syntax
error, so it is enough to tell when it reports nothing (`statements_clean_iff`).
-/

namespace PackageSheet

open Grammar

private theorem Grammar.Rule.exists_cons {r : List Token} (whole : Grammar.Rule r) :
    ∃ t ts, r = t :: ts ∧ t.kind ≠ .semicolon ∧ t.kind ≠ .directive := by
  obtain @⟨s, b, opening, closing, selects, -, -, -⟩ := whole
  cases s with
  | nil => exact absurd rfl selects.ne_nil
  | cons t s => exact ⟨t, _, rfl, selects.kind_head⟩

private theorem Grammar.Sheet.exists_items {ts : List Token} (sheet : Sheet ts) :
    ∃ items last, ts = items ++ last ∧ Items items ∧ (last = [] ∨ ∃ start v,
      last = start :: v ∧ IsImport start ∧ Value True v ∧ Valued v) := by
  induction sheet with
  | nil => exact ⟨[], [], rfl, .nil, .inl rfl⟩
  | @semicolon t ts kind rest ih =>
    obtain ⟨items, last, rfl, whole, ended⟩ := ih
    exact ⟨t :: items, last, rfl, .semicolon kind whole, ended⟩
  | @importFile start ending v ts begins value some ends rest ih =>
    obtain ⟨items, last, rfl, whole, ended⟩ := ih
    exact ⟨start :: (v ++ ending :: items), last, by simp, .importFile begins value some ends whole,
      ended⟩
  | @lastImport start v begins value some =>
    exact ⟨[], start :: v, rfl, .nil, .inr ⟨start, v, rfl, begins, value, some⟩⟩
  | @rule r ts first rest ih =>
    obtain ⟨items, last, rfl, whole, ended⟩ := ih
    exact ⟨r ++ items, last, (List.append_assoc r items last).symm, .rule first whole, ended⟩

namespace Reading

/-- Everything that was reported is a syntax error. -/
def Syntactic {α : Type} (outcome : Outcome α) : Prop :=
  ∀ d ∈ outcome.problems, d.code = .syntaxError

variable {reading : Reading} {declared : PackageSheet.Rule} {start name : Token}
  {v r rest tokens : List Token}

theorem Syntactic.after {α : Type} {outcome : Outcome α} {problems : List Diagnostic}
    (first : ∀ d ∈ problems, d.code = .syntaxError) (later : Syntactic outcome) :
    Syntactic (outcome.after problems) := by
  intro d member
  rcases List.mem_append.mp member with early | late
  · exact first d early
  · exact later d late

private theorem syntactic_property : Syntactic (reading.property declared name tokens) := by
  unfold property
  split
  · exact List.forall_mem_singleton.mpr rfl
  · dsimp only
    split
    · exact List.forall_mem_nil _
    · split
      · exact List.forall_mem_nil _
      · exact List.forall_mem_singleton.mpr rfl

private theorem syntactic_body : Syntactic (body reading declared tokens) := by
  fun_induction body reading declared tokens with
  | case1 => exact List.forall_mem_singleton.mpr rfl
  | case2 => exact List.forall_mem_nil _
  | case3 declared t ts kind ih => exact ih
  | case4 declared t ts kind found ih => exact ih.after syntactic_property
  | case5 declared t ts _ _ _ ih => exact ih.after (List.forall_mem_singleton.mpr rfl)

private theorem syntactic_selectorParts : Syntactic (selectorParts reading declared tokens) := by
  fun_induction selectorParts reading declared tokens with
  | case2 _ _ _ _ _ _ ih | case5 _ _ _ _ _ _ ih => exact ih
  | case9 _ _ _ _ _ _ _ ih => exact ih
  | case8 => exact List.forall_mem_nil _
  | _ => exact List.forall_mem_singleton.mpr rfl

private theorem syntactic_rule : Syntactic (reading.rule start tokens) := by
  have selected : Syntactic (reading.selector start tokens) := by
    unfold selector
    dsimp only
    split <;> exact syntactic_selectorParts
  unfold Reading.rule
  dsimp only
  split
  · exact selected
  · refine .after (fun d member => ?_) syntactic_body
    rcases List.mem_append.mp member with early | late
    · exact selected d early
    · split at late
      · rw [List.mem_singleton.mp late]
        rfl
      · cases late

private theorem syntactic_directive : Syntactic (reading.directive start tokens) := by
  have ending (tokens : List Token) : Syntactic (reading.importEnd tokens) := by
    unfold importEnd
    split
    · exact List.forall_mem_nil _
    · exact List.forall_mem_singleton.mpr rfl
  unfold directive
  dsimp only
  split
  · exact List.forall_mem_singleton.mpr rfl
  split
  · intro d member
    rcases List.mem_append.mp member with early | late
    · exact ending _ d early
    · rw [List.mem_singleton.mp late]
      rfl
  · exact ending _

theorem syntactic_statements : Syntactic (statements reading tokens) := by
  fun_induction statements reading tokens with
  | case1 => exact List.forall_mem_nil _
  | case2 t ts kind ih => exact ih
  | case3 t ts kind found ih => exact ih.after syntactic_directive
  | case4 t ts _ _ found ih => exact ih.after syntactic_rule

/-- An import is read as a whole, up to and with its semicolon or to the end. -/
theorem directive_append {final : Prop} (begins : start.text = "import") (value : Value final v)
    (last : final → rest = []) (full : reading.valueText v ≠ "")
    (ended : rest = [] ∨ nextIs .semicolon rest = true) :
    reading.directive start (v ++ rest) =
      ⟨some (.importFile (reading.valueText v) (reading.locate start)), [], rest.drop 1⟩ := by
  have ends : ∀ t ∈ rest.head?, Ends t := by
    rcases ended with rfl | ended
    · simp
    · obtain ⟨t, ts, rfl, kind⟩ := nextIs_iff.mp ended
      simpa [Ends] using .inr (.inl kind)
  have closed : reading.importEnd rest = ⟨(), [], rest.drop 1⟩ := by
    rcases ended with rfl | ended
    · rfl
    · simp [importEnd, ended]
  unfold directive
  simp [begins, value_append value last ends, closed, full, Outcome.map]

private theorem directive_read (clean : (reading.directive start tokens).problems = []) :
    start.text = "import" ∧ ∃ v ahead, tokens = v ++ ahead ∧ Value (ahead = []) v ∧
      reading.valueText v ≠ "" ∧ (ahead = [] ∨ nextIs .semicolon ahead = true) ∧
      (reading.directive start tokens).rest = ahead.drop 1 := by
  unfold directive at clean ⊢
  by_cases begins : start.text = "import"
  · refine ⟨begins, (splitValue false tokens).1, (splitValue false tokens).2,
      (splitValue_parts false tokens).symm, value_splitValue tokens, ?_⟩
    by_cases empty : reading.valueText (splitValue false tokens).1 = ""
    · simp [begins, Reading.value, empty] at clean
    · simp only [begins, Reading.value, empty, ne_eq, not_true, not_false_eq_true, if_false,
        true_and, Outcome.map] at clean ⊢
      unfold importEnd at clean ⊢
      split at clean
      · rename_i ended
        simp only [Bool.or_eq_true, List.isEmpty_iff] at ended
        simp [ended]
      · cases clean
  · simp [begins] at clean

/-- Behind its selector a rule is read as a body, and one that names nothing is reported. -/
theorem rule_eq (selected : (reading.selector start tokens).result = some declared) :
    reading.rule start tokens =
      ((reading.body declared (reading.selector start tokens).rest).map some).after
        ((reading.selector start tokens).problems ++
          if declared.Nameless then
            [Problem.missingSelector.diagnosedAt (reading.locate start)]
          else []) := by
  unfold Reading.rule
  dsimp only
  rw [selected]
  rfl

private theorem rule_append (whole : Grammar.Rule (start :: r))
    (full : start.kind = .identifier → start.text ≠ "") :
    ∃ filled, ∀ rest, reading.rule start (r ++ rest) = ⟨some filled, [], rest⟩ := by
  generalize all : start :: r = tokens at whole
  obtain @⟨s, b, opening, closing, selects, opens, inside, closes⟩ := whole
  cases s with
  | nil => exact absurd rfl selects.ne_nil
  | cons first s =>
    obtain ⟨rfl, split⟩ := List.cons.inj all
    obtain ⟨selected, read, proper⟩ := @selector_append reading start opening s selects full opens
    obtain ⟨filled, body⟩ := @body_append reading selected closing b inside closes
    refine ⟨filled, fun rest => ?_⟩
    have whole : r ++ rest = s ++ opening :: (b ++ closing :: rest) := by
      rw [split]
      simp
    rw [whole, rule_eq (congrArg Outcome.result (read _)), read, if_neg proper, body]
    rfl

private theorem rule_read (clean : (reading.rule start tokens).problems = []) :
    ∃ r, start :: tokens = r ++ (reading.rule start tokens).rest ∧ Grammar.Rule r := by
  have selected : (reading.selector start tokens).problems = [] := by
    unfold Reading.rule at clean
    dsimp only at clean
    split at clean
    · exact clean
    · exact (List.append_eq_nil_iff.mp (Outcome.problems_after_eq_nil.mp clean).1).1
  obtain ⟨s, opening, declared, split, opens, result, selects⟩ := selector_read selected
  rw [rule_eq result] at clean ⊢
  obtain ⟨first, later⟩ := Outcome.problems_after_eq_nil.mp clean
  have proper : ¬ declared.Nameless := by
    intro nameless
    simp [nameless] at first
  obtain ⟨b, closing, after, inside, closes⟩ := body_read later
  refine ⟨s ++ opening :: (b ++ [closing]), ?_, .intro (selects proper) opens inside closes⟩
  rw [split, Outcome.rest_after, Outcome.rest_map, List.append_assoc, List.cons_append,
    List.append_assoc, List.singleton_append, ← after]

theorem statements_semicolon (kind : start.kind = .semicolon) :
    statements reading (start :: tokens) = statements reading tokens := by
  rw [statements]
  split <;> simp_all

theorem statements_directive (kind : start.kind = .directive) :
    statements reading (start :: tokens) =
      ((statements reading (reading.directive start tokens).rest).map
        ((reading.directive start tokens).result.toList ++ ·)).after
        (reading.directive start tokens).problems := by
  rw [statements]
  split <;> simp_all

theorem statements_rule (semicolon : start.kind ≠ .semicolon)
    (directive : start.kind ≠ .directive) :
    statements reading (start :: tokens) =
      ((statements reading (reading.rule start tokens).rest).map
        (((reading.rule start tokens).result.map Statement.rule).toList ++ ·)).after
        (reading.rule start tokens).problems := by
  rw [statements]
  split <;> simp_all

private theorem sheet_of_clean (faithful : reading.Faithful tokens)
    (clean : (statements reading tokens).problems = []) : Sheet tokens := by
  fun_induction statements reading tokens with
  | case1 => exact .nil
  | case2 t ts kind ih =>
    exact .semicolon kind (ih (faithful.sublist (List.sublist_cons_self t ts)) clean)
  | case3 t ts kind found ih =>
    obtain ⟨first, later⟩ := Outcome.problems_after_eq_nil.mp clean
    obtain ⟨begins, v, ahead, rfl, value, full, ended, behind⟩ := directive_read first
    have own : v.Sublist (t :: (v ++ ahead)) := (List.sublist_append_left v ahead).cons t
    have valued := (valueText_ne_empty_iff (faithful.sublist own)).mp full
    rcases ended with rfl | ended
    · rw [List.append_nil]
      exact .lastImport ⟨kind, begins⟩ (value.congr (by simp)) valued
    · obtain ⟨ending, ts, rfl, ends⟩ := nextIs_iff.mp ended
      have after : found.rest = ts := behind
      have others : ts.Sublist (t :: (v ++ ending :: ts)) :=
        ((List.sublist_append_of_sublist_right (List.sublist_cons_self ending ts))).cons t
      rw [after] at ih later
      exact .importFile ⟨kind, begins⟩ (value.congr (by simp)) valued ends
        (ih (faithful.sublist others) later)
  | case4 t ts found semicolon directive ih =>
    obtain ⟨first, later⟩ := Outcome.problems_after_eq_nil.mp clean
    obtain ⟨r, split, whole⟩ := rule_read first
    change t :: ts = r ++ found.rest at split
    rw [split]
    refine .rule whole (ih (faithful.sublist ?_) later)
    rw [split]
    exact List.sublist_append_right r found.rest

theorem statements_nil : statements reading [] = ⟨[], [], []⟩ := by
  rw [statements]

/-- Complete statements are read, whatever follows, and then what follows. -/
theorem statements_items (whole : Items tokens) (faithful : reading.Faithful tokens) :
    ∃ found, ∀ rest, statements reading (tokens ++ rest) =
      (statements reading rest).map (found ++ ·) := by
  induction whole with
  | nil => exact ⟨[], fun rest => rfl⟩
  | @semicolon t ts kind others ih =>
    obtain ⟨found, read⟩ := ih (faithful.sublist (List.sublist_cons_self t ts))
    refine ⟨found, fun rest => ?_⟩
    rw [List.cons_append, statements_semicolon kind]
    exact read rest
  | @importFile start ending v ts begins value valued ends others ih =>
    have own : v.Sublist (start :: (v ++ ending :: ts)) := (List.sublist_append_left v _).cons start
    have later : ts.Sublist (start :: (v ++ ending :: ts)) :=
      ((List.sublist_append_of_sublist_right (List.sublist_cons_self ending ts))).cons start
    have full := (valueText_ne_empty_iff (faithful.sublist own)).mpr valued
    obtain ⟨found, read⟩ := ih (faithful.sublist later)
    refine ⟨.importFile (reading.valueText v) (reading.locate start) :: found, fun rest => ?_⟩
    have ended := nextIs_iff.mpr ⟨ending, ts ++ rest, rfl, ends⟩
    rw [List.cons_append, List.append_assoc, List.cons_append, statements_directive begins.1,
      directive_append begins.2 value False.elim full (.inr ended), List.drop_succ_cons,
      List.drop_zero, read rest]
    rfl
  | @rule r ts first others ih =>
    obtain ⟨start, r, rfl, semicolon, directive⟩ := first.exists_cons
    obtain ⟨filled, own⟩ := rule_append first (faithful.named start List.mem_cons_self)
    obtain ⟨found, read⟩ := ih (faithful.sublist (List.sublist_append_right (start :: r) ts))
    refine ⟨.rule filled :: found, fun rest => ?_⟩
    rw [List.append_assoc, List.cons_append, statements_rule semicolon directive, own, read rest]
    rfl

theorem clean_of_sheet (faithful : reading.Faithful tokens) (sheet : Sheet tokens) :
    (statements reading tokens).problems = [] := by
  obtain ⟨items, last, rfl, whole, ended⟩ := sheet.exists_items
  obtain ⟨found, read⟩ :=
    statements_items whole (faithful.sublist (List.sublist_append_left items last))
  rw [read]
  rcases ended with rfl | ⟨start, v, rfl, begins, value, valued⟩
  · rw [statements_nil]
    rfl
  · have own := faithful.sublist (List.sublist_append_right items (start :: v))
    have full := (valueText_ne_empty_iff (own.sublist (List.sublist_cons_self start v))).mpr valued
    have import' := @directive_append reading start v [] _ begins.2 value (fun _ => rfl) full (.inl rfl)
    rw [List.append_nil] at import'
    rw [statements_directive begins.1, import', List.drop_nil, statements_nil]
    rfl

/-- Reading reports nothing exactly for the tokens of a sheet. -/
theorem statements_clean_iff (faithful : reading.Faithful tokens) :
    (statements reading tokens).problems = [] ↔ Sheet tokens :=
  ⟨sheet_of_clean faithful, clean_of_sheet faithful⟩

end Reading

/-- Reading a text reports no syntax error exactly if its tokens of known classes are those of a
sheet. -/
theorem syntaxError_free_iff (text : String) (file : Option Path) :
    (∀ d ∈ (Statement.ofText text file).2, d.code ≠ .syntaxError) ↔
      Sheet ((Token.ofText .hyphenated text).filter (·.kind != .unknown)) := by
  let known := (Token.ofText .hyphenated text).filter (·.kind != .unknown)
  let reading : Reading := ⟨text.toList, file, known.getLast?⟩
  have faithful : reading.Faithful known :=
    (Reading.faithful_of_lexed (lexed_ofText .hyphenated text)).sublist List.filter_sublist
  rw [← Reading.statements_clean_iff faithful]
  constructor
  · intro silent
    refine List.eq_nil_iff_forall_not_mem.mpr fun d member => ?_
    exact silent d (List.mem_append_right _ member) (Reading.syntactic_statements d member)
  · intro clean d member coded
    rcases List.mem_append.mp member with anomaly | problem
    · obtain ⟨t, -, rfl⟩ := List.mem_map.mp anomaly
      cases coded
    · rw [clean] at problem
      cases problem

end PackageSheet
