import PackageSheet.Proofs.Template.Nesting
import PackageSheet.Session
import Mathlib.Data.Set.Finite.Basic

namespace PackageSheet

private theorem Scope.finite_holds (scope : Scope) : { value | scope.Holds value }.Finite :=
  scope.values.toFinset.finite_toSet.subset fun value held => by
    simpa using Scope.mem_values_of_holds held

namespace Session

open Template

/-- Every text has a finite derivation, and each derivation of it tells what the session answers and
reports. Along every chain of nested expansions no name is active twice, and every active name is a
fragment of the text or of one of the finitely many texts that the scope holds. -/
theorem expand_derivation (session : Session) (text : String) (location : Option Location) :
    let scope := session.site.scope
    { value | scope.Holds value }.Finite ∧
      (∃ expansion chains, Scope.Expands scope [] (parts text.toList) expansion chains) ∧
      ∀ expansion chains, Scope.Expands scope [] (parts text.toList) expansion chains →
        (session.expand text location).1 = expansion.string ∧
        (session.expand text location).2.diagnostics =
          session.diagnostics ++ expansion.diagnostics location ∧
        ∀ chain ∈ chains, chain.Nodup ∧ ∀ name ∈ chain, scope.Known text.toList name := by
  intro scope
  obtain ⟨chains, derivation⟩ := scope.exists_expands [] (parts text.toList)
  refine ⟨scope.finite_holds, ⟨_, chains, derivation⟩, ?_⟩
  intro expansion chains derivation
  have expanded : session.site.expand text location =
      ⟨expansion.string, expansion.diagnostics location⟩ := by
    rw [derivation.eq]
    rfl
  refine ⟨?_, ?_, fun chain member => ⟨?_, ?_⟩⟩
  · simp [expand, expanded]
  · simp only [expand, expanded]
    exact Journal.diagnostics_reportAll _ _
  · exact derivation.chain_nodup .nil chain member
  · have bodies : ∀ body, .reference body ∈ parts text.toList → scope.Known text.toList body :=
      fun body inside => .inl (body_isInfix inside)
    exact derivation.chain_known nofun bodies chain member

end Session

end PackageSheet
