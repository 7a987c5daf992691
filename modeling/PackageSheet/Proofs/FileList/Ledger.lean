import PackageSheet.Proofs.FileList.Tour
import Mathlib.Data.List.Forall2

/-!
What was reported about the faults of lists, told by the diagnostics themselves. A diagnostic about
a fault of a list names both (`ListFault.Reports.unique`), and since some moment there is one for
each fault that is known as reported and no other (`Assembly.Balanced`), so each fault is reported
at most once.
-/

namespace PackageSheet

/-- A diagnostic reports a fault of a list. -/
def ListFault.Reports (fault : ListFault) (d : Diagnostic) : Prop :=
  match fault with
  | .undefined name => d = (Problem.undefinedList name).diagnose none
  | .circular name => d = (Problem.circularList name).diagnose none
  | .ambiguous name =>
    ∃ count location, d = (Problem.ambiguousList name count).diagnose location

private theorem append_cons_inj_left {α : Type} {mark : α} {first second rest other : List α}
    (same : first ++ mark :: rest = second ++ mark :: other) (free : mark ∉ rest)
    (bare : mark ∉ other) : first = second := by
  rcases List.append_eq_append_iff.mp same with ⟨more, rfl, tail⟩ | ⟨more, rfl, tail⟩
  · cases more with
    | nil => simp
    | cons head more =>
      obtain ⟨rfl, rfl⟩ := List.cons.inj tail
      simp at free
  · cases more with
    | nil => simp
    | cons head more =>
      obtain ⟨rfl, rfl⟩ := List.cons.inj tail
      simp at bare

namespace ListFault

variable {fault other : ListFault} {d : Diagnostic}

theorem Reports.isListFault (h : fault.Reports d) : d.code.isListFault = true := by
  cases fault with
  | undefined | circular => rw [show d = _ from h]; rfl
  | ambiguous =>
    obtain ⟨count, location, rfl⟩ := h
    rfl

private theorem quote_not_mem_count (count : Nat) :
    '\'' ∉ " is defined ".toList ++ Nat.toDigits 10 count ++ " times".toList := by
  have digits : '\'' ∉ Nat.toDigits 10 count := fun member =>
    absurd (Nat.isDigit_of_mem_toDigits (by decide) (by decide) member) (by decide)
  simp [digits]

private theorem toList_message_ambiguous (name : String) (count : Nat) :
    (Problem.ambiguousList name count).message.toList = "file list '".toList ++ (name.toList ++
      '\'' :: (" is defined ".toList ++ Nat.toDigits 10 count ++ " times".toList)) := by
  have text : (Problem.ambiguousList name count).message =
      "file list '" ++ name ++ "' is defined " ++ count.repr ++ " times" := rfl
  have mark : "' is defined ".toList = '\'' :: " is defined ".toList := by decide
  simp only [text, String.toList_append, mark, Nat.toList_repr, List.append_assoc,
    List.cons_append]

/-- A diagnostic tells which fault of which list it reports. -/
theorem Reports.unique (first : fault.Reports d) (second : other.Reports d) : fault = other := by
  cases fault with
  | undefined name =>
    cases first
    cases other with
    | undefined another =>
      have same : "file list '" ++ name ++ "' is not defined" =
          "file list '" ++ another ++ "' is not defined" := congrArg Diagnostic.message second
      simpa using same
    | circular => cases congrArg Diagnostic.code second
    | ambiguous =>
      obtain ⟨count, location, same⟩ := second
      cases congrArg Diagnostic.code same
  | circular name =>
    cases first
    cases other with
    | undefined => cases congrArg Diagnostic.code second
    | circular another =>
      have same : "file list '" ++ name ++ "' includes itself" =
          "file list '" ++ another ++ "' includes itself" := congrArg Diagnostic.message second
      simpa using same
    | ambiguous =>
      obtain ⟨count, location, same⟩ := second
      cases congrArg Diagnostic.code same
  | ambiguous name =>
    obtain ⟨count, location, rfl⟩ := first
    cases other with
    | undefined | circular => cases congrArg Diagnostic.code second
    | ambiguous another =>
      obtain ⟨more, place, same⟩ := second
      have texts : (Problem.ambiguousList name count).message.toList =
          (Problem.ambiguousList another more).message.toList :=
        congrArg (String.toList ∘ Diagnostic.message) same
      rw [toList_message_ambiguous, toList_message_ambiguous] at texts
      have names := append_cons_inj_left (List.append_cancel_left texts)
        (quote_not_mem_count count) (quote_not_mem_count more)
      rw [String.toList_inj.mp names]

open Classical in
noncomputable def countOf (sort : ListFault → Prop) (ds : List Diagnostic) : Nat :=
  ds.countP fun d => ∃ fault, sort fault ∧ fault.Reports d

open Classical in
private theorem countOf_eq {faults : List ListFault} {ds : List Diagnostic}
    (reports : List.Forall₂ Reports faults ds) (sort : ListFault → Prop) :
    countOf sort ds = faults.countP sort := by
  unfold countOf
  induction reports with
  | nil => rfl
  | @cons fault d faults ds report reports ih =>
    have own : (∃ other, sort other ∧ other.Reports d) ↔ sort fault := by
      constructor
      · rintro ⟨other, sorted, same⟩
        exact same.unique report ▸ sorted
      · intro sorted
        exact ⟨fault, sorted, report⟩
    simp only [List.countP_cons, ih, decide_eq_true_eq, own]

open Classical in
/-- Among different faults there is at most one of a sort in which all known ones are the same. -/
theorem countP_le_one {faults : List ListFault} (distinct : faults.Nodup) (sort : ListFault → Prop)
    (single : ∀ fault ∈ faults, ∀ other ∈ faults, sort fault → sort other → fault = other) :
    faults.countP sort ≤ 1 := by
  rw [List.countP_eq_length_filter]
  cases found : faults.filter sort with
  | nil => exact Nat.zero_le 1
  | cons first others =>
    obtain ⟨member, sorted⟩ := List.mem_filter.mp (found ▸ List.mem_cons_self : first ∈ _)
    have subset : faults.filter sort ⊆ [first] := by
      intro fault known
      obtain ⟨own, also⟩ := List.mem_filter.mp known
      exact List.mem_singleton.mpr
        (single fault own first member (of_decide_eq_true also) (of_decide_eq_true sorted))
    rw [← found]
    exact (distinct.filter _).length_le_of_subset subset

open Classical in
theorem exists_report_of_countOf_pos {sort : ListFault → Prop} {ds : List Diagnostic}
    (positive : 0 < countOf sort ds) :
    ∃ fault, sort fault ∧ ∃ d ∈ ds, fault.Reports d := by
  obtain ⟨d, member, found⟩ := List.countP_pos_iff.mp positive
  obtain ⟨fault, sorted, report⟩ := of_decide_eq_true found
  exact ⟨fault, sorted, d, member, report⟩

end ListFault

/-- Since some diagnostics were reported there is one for each fault that is known as reported, in
this order, and no other one about a fault of a list. -/
structure Assembly.Balanced (since : List Diagnostic) (assembly : Assembly) : Prop where
  nodup : assembly.journal.reported.Nodup
  reports : ∃ fresh, assembly.journal.diagnostics = since ++ fresh ∧
    List.Forall₂ ListFault.Reports assembly.journal.reported.reverse
      (fresh.filter (·.code.isListFault))

namespace Assembly.Balanced

variable {since : List Diagnostic} {assembly : Assembly} {fault : ListFault} {problem : Problem}
  {location : Option Location}

theorem of_reported_nil (unknown : assembly.journal.reported = []) :
    assembly.Balanced assembly.journal.diagnostics :=
  ⟨by simp [unknown], [], by simp, by simp [unknown]⟩

private theorem mark (balanced : assembly.Balanced since) (name : String) (progress : Progress) :
    (assembly.mark name progress).Balanced since :=
  ⟨balanced.nodup, balanced.reports⟩

private theorem write (balanced : assembly.Balanced since) {entries : List JournalEntry}
    (plain : ∀ entry ∈ entries, entry.isPlain) : (assembly.write entries).Balanced since := by
  obtain ⟨fresh, split, reports⟩ := balanced.reports
  let more := ({ entries } : Journal ListFault).diagnostics
  have written : (assembly.write entries).journal.diagnostics = since ++ (fresh ++ more) := by
    rw [← List.append_assoc, ← split]
    exact List.filterMap_append
  have apart : more.filter (·.code.isListFault) = [] := by
    apply List.filter_eq_nil_iff.mpr
    intro d member
    obtain ⟨entry, written, same⟩ := List.mem_filterMap.mp member
    have unfaulty := plain entry written
    cases entry with
    | note => cases same
    | diagnostic report =>
      cases same
      simpa [JournalEntry.isPlain] using unfaulty
  refine ⟨balanced.nodup, fresh ++ more, written, ?_⟩
  rwa [List.filter_append, apart, List.append_nil]

private theorem complain (balanced : assembly.Balanced since)
    (report : fault.Reports (problem.diagnose location)) :
    (assembly.complain fault problem location).Balanced since := by
  obtain ⟨fresh, split, reports⟩ := balanced.reports
  unfold Assembly.complain Journal.reportOnce
  split
  · exact balanced
  · rename_i unknown
    have new : fault ∉ assembly.journal.reported := by simpa [Journal.knows] using unknown
    refine ⟨List.nodup_cons.mpr ⟨new, balanced.nodup⟩, fresh ++ [problem.diagnose location], ?_, ?_⟩
    · rw [← List.append_assoc, ← split]
      exact Journal.diagnostics_report ..
    · rw [List.filter_append, List.reverse_cons]
      refine List.rel_append reports ?_
      simpa [report.isListFault] using report

open Classical in
/-- The diagnostics since then: each one about a fault of a list reports a known one, and of each
sort as many faults are reported as are known. -/
theorem exists_fresh (balanced : assembly.Balanced since) :
    ∃ fresh, assembly.journal.diagnostics = since ++ fresh ∧
      (∀ d ∈ fresh, d.code.isListFault →
        ∃ fault ∈ assembly.journal.reported, fault.Reports d) ∧
      ∀ sort : ListFault → Prop,
        ListFault.countOf sort fresh = assembly.journal.reported.countP sort := by
  obtain ⟨fresh, split, reports⟩ := balanced.reports
  refine ⟨fresh, split, ?_, ?_⟩
  · intro d member faulty
    have listed : d ∈ fresh.filter (·.code.isListFault) := List.mem_filter.mpr ⟨member, faulty⟩
    obtain ⟨i, inside, rfl⟩ := List.mem_iff_get.mp listed
    have known : i < assembly.journal.reported.reverse.length := by
      rw [reports.length_eq]
      exact i.isLt
    exact ⟨_, List.mem_reverse.mp (List.get_mem _ ⟨i, known⟩), reports.get known i.isLt⟩
  · intro sort
    rw [← List.countP_reverse (l := assembly.journal.reported), ← ListFault.countOf_eq reports,
      ListFault.countOf, ListFault.countOf, List.countP_filter]
    apply List.countP_congr
    intro d _
    simp only [decide_eq_true_eq, Bool.and_eq_true, iff_self_and]
    exact fun ⟨fault, _, report⟩ => report.isListFault

end Assembly.Balanced

namespace Tour

variable {site : Site} {root : String} {before after : Tour} {since : List Diagnostic}

/-- A step reports a fault only if it is not known, and remembers it. -/
theorem Step.balanced (step : Step site root before after)
    (balanced : before.assembly.Balanced since) : after.assembly.Balanced since := by
  cases step with
  | write entries plain => exact balanced.write plain
  | undefined | circular => exact balanced.complain rfl
  | ambiguous => exact balanced.complain ⟨_, _, rfl⟩
  | enter | leave => exact balanced.mark _ _

end Tour

end PackageSheet
