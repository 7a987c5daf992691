import PackageSheet.Proofs.Session.Warnings
import PackageSheet.Proofs.Template.Concatenation

namespace PackageSheet

private theorem Journal.reportAll_append {Key : Type} (journal : Journal Key)
    (first second : List Diagnostic) :
    journal.reportAll (first ++ second) = (journal.reportAll first).reportAll second := by
  simp [reportAll]

namespace Session

open Template

/-- To expand a text put together from two, of which the first closes what it opens, and between which no
opening stands, is to expand one after the other: the results are put together, and the diagnostics of the
second come behind those of the first. A text whose references have no values is its own expansion, with
one warning for each of its references, in their order. -/
theorem expand_concatenation (session : Session) (location : Option Location) :
    (∀ front back : String, ClosesOpenings front.toList → ¬ Straddles front.toList back.toList →
      let first := session.expand front location
      let second := first.2.expand back location
      session.expand (front ++ back) location = (first.1 ++ second.1, second.2) ∧
        second.1 = (session.expand back location).1 ∧
        ∃ reports, (session.expand back location).2.diagnostics = session.diagnostics ++ reports ∧
          second.2.diagnostics = first.2.diagnostics ++ reports) ∧
    ∀ text : String, ∃ bodies, (∀ others, References text.toList others ↔ others = bodies) ∧
      ((∀ body ∈ bodies, session.site.scope.resolve? body = none) →
        (session.expand text location).1 = text ∧
          (session.expand text location).2.diagnostics = session.diagnostics ++
            bodies.map fun body => (Problem.unresolvedReference
              (String.ofList (Text.trim body))).diagnose location) := by
  refine ⟨fun front back closed apart => ?_, fun text => ?_⟩
  · have together : session.site.expand (front ++ back) location =
        ⟨(session.site.expand front location).value ++ (session.site.expand back location).value,
          (session.site.expand front location).reports ++
            (session.site.expand back location).reports⟩ := by
      simp [Site.expand, Scope.expand_append closed apart, Expansion.append, Expansion.string,
        Expansion.diagnostics]
    refine ⟨?_, rfl, _, session.diagnostics_expand back location, ?_⟩
    · unfold expand
      simp [together, Assembly.reportAll, Journal.reportAll_append]
    · exact diagnostics_expand _ back location
  · refine ⟨(parts text.toList).filterMap Part.body?, fun others => references_iff.trans eq_comm, ?_⟩
    intro missing
    have expanded : session.site.scope.expand text =
        ⟨text.toList, ((parts text.toList).filterMap Part.body?).map Scope.unresolved⟩ := by
      rw [Scope.expand, Scope.expandParts_of_unresolved missing, text_parts]
    constructor
    · change (session.site.scope.expand text).string = text
      rw [expanded]
      exact String.ofList_toList
    · rw [diagnostics_expand, expanded]
      simp [Expansion.diagnostics, Scope.unresolved]

/-- A text that ends with a dollar sign, and one with a closing brace in front of a reference without a
value. -/
theorem expand_concatenation_naming :
    let session := naming [("a", "x")]
    ClosesOpenings "$\x7ba\x7d$".toList ∧ ¬ Straddles "$\x7ba\x7d$".toList "\x7d$\x7bb\x7d".toList ∧
      References "\x7d$\x7bb\x7d".toList [['b']] ∧ session.site.scope.resolve? ['b'] = none ∧
      (session.expand ("$\x7ba\x7d$" ++ "\x7d$\x7bb\x7d") none).1 = "x$\x7d$\x7bb\x7d" ∧
      (session.expand ("$\x7ba\x7d$" ++ "\x7d$\x7bb\x7d") none).2.diagnostics =
        session.diagnostics ++ [(Problem.unresolvedReference "b").diagnose none] := by
  intro session
  have closed : ClosesOpenings "$\x7ba\x7d$".toList := by decide
  have apart : ¬ Straddles "$\x7ba\x7d$".toList "\x7d$\x7bb\x7d".toList := by decide
  have references : References "\x7d$\x7bb\x7d".toList [['b']] :=
    @References.cons ['\x7d'] ['b'] [] [] (by decide) (by decide) (.none not_showsReference_nil)
  have found : session.site.scope.resolve? ['a'] = some "x" := by decide
  have missing : session.site.scope.resolve? ['b'] = none := by decide
  have text : parts "$\x7ba\x7d$".toList = [.reference ['a'], .char '$'] :=
    (@parts_append [] ['a'] ['$'] (by decide) (by decide)).trans (by simp [parts])
  have derivation : Scope.Expands session.site.scope [] (parts "$\x7ba\x7d$".toList)
      ⟨['x', '$'], []⟩ [[['a']]] := by
    have nested : Scope.Expands session.site.scope [['a']] (parts "x".toList) ⟨['x'], []⟩ [] :=
      .of_not_mem (by decide)
    rw [text]
    exact .resolved List.not_mem_nil found nested (.char .nil)
  obtain ⟨ahead, silent⟩ : (session.expand "$\x7ba\x7d$" none).1 = "x$" ∧
      (session.expand "$\x7ba\x7d$" none).2.diagnostics = session.diagnostics :=
    diagnostics_expand_of_expands derivation rfl
  obtain ⟨both, alone⟩ := expand_concatenation session none
  obtain ⟨whole, same, reports, behind, last⟩ := both _ _ closed apart
  obtain ⟨bodies, own, unresolved⟩ := alone "\x7d$\x7bb\x7d"
  obtain rfl : [['b']] = bodies := (own _).mp references
  obtain ⟨kept, warned⟩ := unresolved (List.forall_mem_singleton.mpr missing)
  obtain rfl := List.append_cancel_left (behind.symm.trans warned)
  refine ⟨closed, apart, references, missing, ?_, ?_⟩
  · rw [whole, same, kept, ahead]
    rfl
  · rw [whole, last, silent]
    rfl

end Session

end PackageSheet
