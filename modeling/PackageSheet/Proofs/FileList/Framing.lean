import PackageSheet.Proofs.FileList.Alike
import PackageSheet.Proofs.FileList.Visit

/-!
The work on file lists never reads what was written in the journal. With other entries in front, a
request yields the same and writes the same behind them (`Site.framed_resolve`), so assemblies that
differ in notes alone go on alike (`Assembly.Agrees.of_framed`).
-/

namespace PackageSheet

namespace Assembly

def behind (assembly : Assembly) (entries : List JournalEntry) : Assembly :=
  { assembly with
    journal := { assembly.journal with entries := entries ++ assembly.journal.entries } }

/-- Work that leaves alone what was written in the journal before, and does not depend on it. -/
def Framed {α : Type} (work : Assembly → α × Assembly) : Prop :=
  ∀ assembly entries, work (assembly.behind entries) =
    ((work assembly).1, (work assembly).2.behind entries)

variable {assembly one other : Assembly} {entries : List JournalEntry}

theorem reportAll_behind (ds : List Diagnostic) :
    (assembly.behind entries).reportAll ds = (assembly.reportAll ds).behind entries := by
  simp only [reportAll, Journal.reportAll, behind, List.append_assoc]

private theorem note_behind (text : String) :
    (assembly.behind entries).note text = (assembly.note text).behind entries := by
  simp only [note, Journal.note, behind, List.append_assoc]

private theorem mark_behind (name : String) (progress : Progress) :
    (assembly.behind entries).mark name progress = (assembly.mark name progress).behind entries :=
  rfl

private theorem complain_behind (fault : ListFault) (problem : Problem) (location : Option Location) :
    (assembly.behind entries).complain fault problem location =
      (assembly.complain fault problem location).behind entries := by
  have knows : (assembly.behind entries).journal.knows fault = assembly.journal.knows fault := rfl
  unfold complain Journal.reportOnce
  rw [knows]
  split
  · rfl
  · simp only [Journal.report, behind, List.append_assoc]

private theorem diagnostics_behind (assembly : Assembly) (entries : List JournalEntry) :
    (assembly.behind entries).journal.diagnostics =
      ({ entries } : Journal ListFault).diagnostics ++ assembly.journal.diagnostics :=
  List.filterMap_append

/-- Two assemblies differ in the notes of their journals alone. -/
structure Agrees (one other : Assembly) : Prop where
  slots : other.slots = one.slots
  reported : other.journal.reported = one.journal.reported
  diagnostics : other.journal.diagnostics = one.journal.diagnostics

theorem Agrees.refl (assembly : Assembly) : assembly.Agrees assembly :=
  ⟨rfl, rfl, rfl⟩

theorem Agrees.symm (agree : one.Agrees other) : other.Agrees one :=
  ⟨agree.slots.symm, agree.reported.symm, agree.diagnostics.symm⟩

theorem Agrees.trans {last : Assembly} (early : one.Agrees other) (late : other.Agrees last) :
    one.Agrees last :=
  ⟨late.slots.trans early.slots, late.reported.trans early.reported,
    late.diagnostics.trans early.diagnostics⟩

theorem agrees_note (assembly : Assembly) (text : String) : assembly.Agrees (assembly.note text) :=
  ⟨rfl, rfl, assembly.journal.diagnostics_note text⟩

def bare (assembly : Assembly) : Assembly :=
  { assembly with journal := { assembly.journal with entries := [] } }

private theorem behind_bare (assembly : Assembly) :
    assembly.bare.behind assembly.journal.entries = assembly := by
  simp only [bare, behind, List.append_nil]

private theorem Agrees.bare_eq (agree : one.Agrees other) : other.bare = one.bare := by
  simp only [bare, agree.slots, agree.reported]

/-- Framed work on assemblies that agree yields the same, and reports the same behind what was reported
before. -/
theorem Agrees.of_framed {α : Type} {work : Assembly → α × Assembly} (agree : one.Agrees other)
    (framed : Framed work) :
    (work other).1 = (work one).1 ∧ (work one).2.Agrees (work other).2 ∧
      ∃ reports, (work one).2.journal.diagnostics = one.journal.diagnostics ++ reports ∧
        (work other).2.journal.diagnostics = other.journal.diagnostics ++ reports := by
  have first := framed one.bare one.journal.entries
  have second := framed one.bare other.journal.entries
  rw [behind_bare] at first
  rw [← agree.bare_eq, behind_bare, agree.bare_eq] at second
  rw [first, second, diagnostics_behind, diagnostics_behind]
  refine ⟨rfl, ⟨rfl, rfl, ?_⟩, _, rfl, rfl⟩
  rw [diagnostics_behind, diagnostics_behind]
  exact congrArg (· ++ _) agree.diagnostics

end Assembly

namespace Site

open Assembly

variable {site : Site} {request : Request} {recipe : Recipe}

/-- Requests that leave alone what was written before. -/
def IsFramed (request : Request) : Prop :=
  ∀ name assembly entries, request name (behind assembly entries) =
    (request name assembly).behind entries

theorem framed_eachToken {act : String → List Entry → Assembly → List Entry × Assembly}
    (acts : ∀ token left, Framed (act token left)) (tokens : List (Reported String))
    (left : List Entry) : Framed (eachToken act tokens left) := by
  intro assembly entries
  induction tokens generalizing left assembly with
  | nil => rfl
  | cons token tokens ih =>
    rw [eachToken, reportAll_behind, acts]
    exact ih _ _

private theorem framed_including (asks : IsFramed request) (token : String) :
    Framed (site.including request recipe token) := by
  intro assembly entries
  have declares : (assembly.behind entries).slots.declares token = assembly.slots.declares token :=
    rfl
  unfold including
  rw [declares]
  split
  · rw [asks]
    rfl
  · dsimp only
    rw [reportAll_behind]

private theorem framed_excluding (asks : IsFramed request) (token : String) (left : List Entry) :
    Framed (excluding request recipe token left) := by
  intro assembly entries
  have declares : (assembly.behind entries).slots.declares token = assembly.slots.declares token :=
    rfl
  unfold excluding
  rw [declares]
  split
  · rw [asks]
    rfl
  · dsimp only
    rw [reportAll_behind]

private theorem framed_includeAll (asks : IsFramed request) (tokens : List (Reported String))
    (left : List Entry) : Framed (site.includeAll request recipe tokens left) := by
  intro assembly entries
  rw [includeAll_eq_eachToken, includeAll_eq_eachToken]
  refine framed_eachToken (fun token left assembly entries => ?_) tokens left assembly entries
  rw [framed_including asks]

private theorem framed_excludeAll (asks : IsFramed request) (tokens : List (Reported String))
    (left : List Entry) : Framed (excludeAll request recipe tokens left) := by
  intro assembly entries
  rw [excludeAll_eq_eachToken, excludeAll_eq_eachToken]
  exact framed_eachToken (framed_excluding asks) tokens left assembly entries

private theorem assemble_behind (asks : IsFramed request) (assembly : Assembly)
    (entries : List JournalEntry) : site.assemble request recipe (assembly.behind entries) =
      (site.assemble request recipe assembly).behind entries := by
  unfold assemble
  dsimp only
  rw [mark_behind, note_behind, reportAll_behind, framed_includeAll asks]
  dsimp only
  rw [framed_excludeAll asks]
  dsimp only
  rw [reportAll_behind, note_behind, mark_behind]

/-- A request leaves alone what was written before, whatever it asks for in turn. -/
theorem isFramed_visit (site : Site) (budget : Nat) : IsFramed (site.visit budget) := by
  induction budget using Nat.strong_induction_on with
  | _ budget ih =>
    intro name assembly entries
    have progress : (assembly.behind entries).slots.progress? name = assembly.slots.progress? name :=
      rfl
    unfold visit
    rw [progress]
    split
    · exact complain_behind _ _ _
    · rfl
    · exact complain_behind _ _ _
    · split
      · exact complain_behind _ _ _
      · cases budget with
        | zero => rfl
        | succ budget => exact assemble_behind (ih budget budget.lt_succ_self) assembly entries
      · exact complain_behind _ _ _

/-- So does a request from outside. -/
theorem framed_resolve (site : Site) (name : String) : Framed (site.resolve name) := by
  intro assembly entries
  have size : (assembly.behind entries).slots.length = assembly.slots.length := rfl
  unfold resolve
  rw [size, isFramed_visit]
  rfl

end Site

end PackageSheet
