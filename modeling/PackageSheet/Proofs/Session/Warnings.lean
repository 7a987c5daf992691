import PackageSheet.Proofs.Session.Circles
import PackageSheet.Proofs.Template.Seam

namespace PackageSheet.Session

/-- Expanding a text reports a circular reference exactly if the references of the text lead to a
name from which they lead back to it, and an unresolved one exactly if they lead to a name without a
value. -/
theorem expand_warnings (session : Session) (text : String) (location : Option Location) :
    let scope := session.site.scope
    ∃ reports,
      (session.expand text location).2.diagnostics = session.diagnostics ++ reports ∧
      ((∃ d ∈ reports, d.code = .circularMacro ∧ d.severity = .warning) ↔
        ∃ name, scope.Leads text.toList name ∧ scope.OnCircle name) ∧
      ((∃ d ∈ reports, d.code = .unresolvedMacro ∧ d.severity = .warning) ↔
        ∃ name, scope.Leads text.toList name ∧ scope.resolve? name = none) := by
  intro scope
  refine ⟨(scope.expand text).diagnostics location, Journal.diagnostics_reportAll _ _, ?_, ?_⟩
  · constructor
    · rintro ⟨d, member, coded, -⟩
      obtain ⟨problem, reported, rfl⟩ := List.mem_map.mp member
      obtain ⟨name, leads, reason⟩ := Scope.mem_problems_expand reported
      cases reason with
      | circular back => exact ⟨name, leads, back⟩
      | unresolved => cases coded
    · rintro ⟨name, leads, circle⟩
      obtain ⟨other, reported⟩ := Scope.exists_circular_mem_problems_expand leads circle
      exact ⟨_, List.mem_map_of_mem reported, rfl, rfl⟩
  · constructor
    · rintro ⟨d, member, coded, -⟩
      obtain ⟨problem, reported, rfl⟩ := List.mem_map.mp member
      obtain ⟨name, leads, reason⟩ := Scope.mem_problems_expand reported
      cases reason with
      | circular => cases coded
      | unresolved missing => exact ⟨name, leads, missing⟩
    · rintro ⟨name, leads, missing⟩
      have reported := Scope.unresolved_mem_problems_expand leads missing
      exact ⟨_, List.mem_map_of_mem reported, rfl, rfl⟩

open Template

/-- What an expansion reports comes behind what was reported before. -/
theorem diagnostics_expand (session : Session) (text : String) (location : Option Location) :
    (session.expand text location).2.diagnostics =
      session.diagnostics ++ (session.site.scope.expand text).diagnostics location :=
  Journal.diagnostics_reportAll _ _

/-- What an expansion without a report leaves behind. Its result is put together from pieces, which are the
runs of characters between the references of the text and of the values that these stand for, and none of
which shows a reference. So the result shows one exactly if it is glued together from several pieces, and
none if all these texts are sealed. -/
theorem references_of_silent (session : Session) (text : String) (location : Option Location)
    (silent : (session.expand text location).2.diagnostics = session.diagnostics) :
    let scope := session.site.scope
    let result := (session.expand text location).1.toList
    ∃ pieces, scope.Pieces (parts text.toList) pieces ∧ result = pieces.flatten ∧
      (∀ piece ∈ pieces, ¬ ShowsReference piece) ∧
      (ShowsReference result ↔ Glued pieces) ∧
      (Sealed (parts text.toList) →
        (∀ name value, scope.Leads text.toList name → scope.resolve? name = some value →
          Sealed (parts value.toList)) →
        ¬ ShowsReference result) := by
  intro scope result
  have reported : (scope.expand text).diagnostics location = [] :=
    List.append_right_eq_self.mp ((session.diagnostics_expand text location).symm.trans silent)
  obtain ⟨chains, derivation⟩ := scope.exists_expands [] (parts text.toList)
  obtain ⟨pieces, pieced, whole⟩ := derivation.exists_pieces (List.map_eq_nil_iff.mp reported)
  have same : result = pieces.flatten := String.toList_ofList.trans whole
  have free := pieced.not_showsReference rfl
  rw [same]
  refine ⟨pieces, pieced, rfl, free, showsReference_flatten_iff free, fun sealed values => ?_⟩
  rw [showsReference_flatten_iff free]
  refine Scope.not_glued_of_sealed (pieced.not_opening sealed ?_)
  intro body member name value path
  exact values name value ⟨_, mentions_of_mem_parts member, path⟩

/-- A session whose table gives names their values. -/
def naming (table : List (String × String)) : Session :=
  table.foldl (fun session entry => session.set entry.1 entry.2) (begin emptyPlace {} [])

/-- Nothing is reported for a text that is expanded without a problem. -/
theorem diagnostics_expand_of_expands {session : Session} {text : String} {expansion : Expansion}
    {chains : List (List (List Char))} {location : Option Location}
    (derivation : Scope.Expands session.site.scope [] (parts text.toList) expansion chains)
    (silent : expansion.problems = []) :
    (session.expand text location).1 = expansion.string ∧
      (session.expand text location).2.diagnostics = session.diagnostics := by
  have expanded : session.site.scope.expand text = expansion := derivation.eq.symm
  refine ⟨congrArg Expansion.string expanded, ?_⟩
  rw [diagnostics_expand, expanded, Expansion.diagnostics, silent]
  exact List.append_nil _

/-- A name whose value refers to another one leaves no reference. -/
theorem references_of_silent_naming :
    let session := naming [("a", "$\x7bb\x7d!"), ("b", "y")]
    (session.expand "$\x7ba\x7d" none).2.diagnostics = session.diagnostics ∧
      ¬ ShowsReference (session.expand "$\x7ba\x7d" none).1.toList := by
  intro session
  have text : parts "$\x7ba\x7d".toList = [.reference ['a']] :=
    (@parts_append [] ['a'] [] (by decide) (by decide)).trans
      (by simp [parts])
  have outer : parts "$\x7bb\x7d!".toList = [.reference ['b'], .char '!'] :=
    (@parts_append [] ['b'] ['!'] (by decide) (by decide)).trans
      (by simp [parts])
  have inner : parts "y".toList = [.char 'y'] := parts_of_not_mem (by decide)
  have first : session.site.scope.resolve? ['a'] = some "$\x7bb\x7d!" := by decide
  have second : session.site.scope.resolve? ['b'] = some "y" := by decide
  have derivation : ∃ chains, Scope.Expands session.site.scope []
      (parts "$\x7ba\x7d".toList) ⟨['y', '!'], []⟩ chains := by
    have innermost : Scope.Expands session.site.scope [['b'], ['a']] (parts "y".toList)
        ⟨['y'], []⟩ [] := .of_not_mem (by decide)
    have nested : Scope.Expands session.site.scope [['a']] (parts "$\x7bb\x7d!".toList)
        ⟨['y', '!'], []⟩ [[['b'], ['a']]] := by
      rw [outer]
      exact .resolved (by decide) second innermost (.char .nil)
    rw [text]
    exact ⟨_, .resolved List.not_mem_nil first nested .nil⟩
  obtain ⟨chains, derivation⟩ := derivation
  obtain ⟨-, silent⟩ := diagnostics_expand_of_expands derivation rfl
  refine ⟨silent, ?_⟩
  obtain ⟨pieces, -, -, -, -, clean⟩ := references_of_silent session "$\x7ba\x7d" none silent
  refine clean (text ▸ sealed_of_not_mem (by decide)) ?_
  rintro name value ⟨root, mention, path⟩ found
  -- references lead from the text to both names and no further
  have reached : name = ['a'] ∨ name = ['b'] := by
    clear found
    induction path with
    | refl =>
      rw [mentions_iff, text] at mention
      obtain ⟨body, member, rfl⟩ := mention
      cases List.mem_singleton.mp member
      exact .inl (by decide)
    | tail earlier edge ih =>
      obtain ⟨own, held, mention⟩ := edge
      rcases ih with rfl | rfl
      · rw [first] at held
        cases held
        rw [mentions_iff, outer] at mention
        obtain ⟨body, member, rfl⟩ := mention
        obtain rfl : body = ['b'] := by simpa using member
        exact .inr (by decide)
      · rw [second] at held
        cases held
        exact absurd mention.closed (by decide)
  rcases reached with rfl | rfl
  · rw [first] at found
    cases found
    exact outer ▸ sealed_of_not_mem (by decide)
  · rw [second] at found
    cases found
    exact inner ▸ sealed_of_not_mem (by decide)

theorem showsReference_naming :
    let session := naming [("a", "\x7bb\x7d")]
    (session.expand "$$\x7ba\x7d" none).2.diagnostics = session.diagnostics ∧
      ShowsReference (session.expand "$$\x7ba\x7d" none).1.toList := by
  intro session
  have text : parts "$$\x7ba\x7d".toList = [.char '$', .reference ['a']] :=
    (@parts_append ['$'] ['a'] [] (by decide) (by decide)).trans
      (by simp [parts])
  have found : session.site.scope.resolve? ['a'] = some "\x7bb\x7d" := by decide
  have derivation : ∃ chains, Scope.Expands session.site.scope [] (parts "$$\x7ba\x7d".toList)
      ⟨['$', '\x7b', 'b', '\x7d'], []⟩ chains := by
    have nested : Scope.Expands session.site.scope [['a']] (parts "\x7bb\x7d".toList)
        ⟨['\x7b', 'b', '\x7d'], []⟩ [] := .of_not_mem (by decide)
    rw [text]
    exact ⟨_, .char (.resolved List.not_mem_nil found nested .nil)⟩
  obtain ⟨chains, derivation⟩ := derivation
  obtain ⟨result, silent⟩ := diagnostics_expand_of_expands derivation rfl
  refine ⟨silent, ?_⟩
  rw [result]
  exact ⟨[], ['b', '\x7d'], by decide, by decide⟩

end PackageSheet.Session
