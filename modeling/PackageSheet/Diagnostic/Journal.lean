import PackageSheet.Diagnostic.Basic

namespace PackageSheet

/-- What is written down while a sheet is worked on: diagnostics, and notes for the log. -/
inductive JournalEntry where
  | diagnostic (d : Diagnostic)
  | note (text : String)
deriving DecidableEq

/-- A journal keeps its entries in the order of their reports, and remembers the keys of those
that are to be reported only once. -/
structure Journal (Key : Type) where
  entries : List JournalEntry := []
  reported : List Key := []

namespace Journal

variable {Key : Type}

/-- The diagnostics, in the order of their reports. -/
def diagnostics (journal : Journal Key) : List Diagnostic :=
  journal.entries.filterMap fun
    | .diagnostic d => some d
    | .note _ => none

def report (journal : Journal Key) (d : Diagnostic) : Journal Key :=
  { journal with entries := journal.entries ++ [.diagnostic d] }

def reportAll (journal : Journal Key) (ds : List Diagnostic) : Journal Key :=
  { journal with entries := journal.entries ++ ds.map .diagnostic }

def note (journal : Journal Key) (text : String) : Journal Key :=
  { journal with entries := journal.entries ++ [.note text] }

def knows [DecidableEq Key] (journal : Journal Key) (key : Key) : Bool :=
  decide (key ∈ journal.reported)

/-- Add a diagnostic, unless one was already reported under the key. -/
def reportOnce [DecidableEq Key] (journal : Journal Key) (key : Key) (d : Diagnostic) :
    Journal Key :=
  if journal.knows key then journal
  else { journal.report d with reported := key :: journal.reported }

def count (journal : Journal Key) (severity : Severity) : Nat :=
  journal.diagnostics.countP (·.severity == severity)

def countCode (journal : Journal Key) (code : Code) : Nat :=
  journal.diagnostics.countP (·.code == code)

def hasErrors (journal : Journal Key) : Bool :=
  0 < journal.count .error

@[simp] theorem diagnostics_report (journal : Journal Key) (d : Diagnostic) :
    (journal.report d).diagnostics = journal.diagnostics ++ [d] := by
  simp [diagnostics, report]

@[simp] theorem diagnostics_reportAll (journal : Journal Key) (ds : List Diagnostic) :
    (journal.reportAll ds).diagnostics = journal.diagnostics ++ ds := by
  simp only [diagnostics, reportAll, List.filterMap_append, List.filterMap_map]
  exact congrArg (_ ++ ·) List.filterMap_some

@[simp] theorem diagnostics_note (journal : Journal Key) (text : String) :
    (journal.note text).diagnostics = journal.diagnostics := by
  simp [diagnostics, note]

theorem diagnostics_reportOnce [DecidableEq Key] (journal : Journal Key) (key : Key)
    (d : Diagnostic) :
    (journal.reportOnce key d).diagnostics =
      journal.diagnostics ++ if journal.knows key then [] else [d] := by
  unfold reportOnce
  split <;> simp [diagnostics, report]

end Journal

/-- Counts of diagnostics by severity and by code, the codes by name in alphabetical order. -/
structure Tally where
  warnings : Nat
  errors : Nat
  byCode : List (Code × Nat)

namespace Tally

/-- Count diagnostics. -/
def of (ds : List Diagnostic) : Tally where
  warnings := ds.countP (·.severity == .warning)
  errors := ds.countP (·.severity == .error)
  byCode :=
    let named := Code.all.mergeSort fun a b => a.text ≤ b.text
    (named.map fun code => (code, ds.countP (·.code == code))).filter (0 < ·.2)

def isClean (tally : Tally) : Bool :=
  tally.warnings == 0 && tally.errors == 0

end Tally

end PackageSheet
