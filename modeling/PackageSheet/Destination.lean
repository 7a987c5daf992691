import PackageSheet.Path
import PackageSheet.Text.Blank

namespace PackageSheet

/-- How many of their leading directories destinations lose. -/
inductive TrimPolicy where
  | keep
  | nameOnly
  | minimal
deriving DecidableEq

namespace TrimPolicy

def plainText (text : String) : String :=
  String.ofList ((Text.trim text.toList).map Char.toLower)

/-- The policy of a word, in any case of its letters. -/
def ofText? (text : String) : Option TrimPolicy :=
  match plainText text with
  | "none" => some .keep
  | "all" => some .nameOnly
  | "minimal" => some .minimal
  | _ => none

def complaint (text : String) : String :=
  s!"unknown trim-path value '{plainText text}'"

end TrimPolicy

namespace Destination

/-- The text without pairs of dots, taken from the left. -/
def dropDoubleDots : List Char → List Char
  | '.' :: '.' :: cs => dropDoubleDots cs
  | c :: cs => c :: dropDoubleDots cs
  | [] => []

/-- The text with one slash for every run of them. -/
def collapseSlashes : List Char → List Char
  | '/' :: '/' :: cs => collapseSlashes ('/' :: cs)
  | c :: cs => c :: collapseSlashes cs
  | [] => []

/-- The text without `./` and `../` at its start. -/
def dropRelativeStart : List Char → List Char
  | '.' :: '.' :: '/' :: cs => dropRelativeStart cs
  | '.' :: '/' :: cs => dropRelativeStart cs
  | cs => cs

def trimSlashes (cs : List Char) : List Char :=
  ((cs.dropWhile (· == '/')).reverse.dropWhile (· == '/')).reverse

/-- One round of normalization of a text that is written with slashes. -/
def normalizeOnce (cs : List Char) : List Char :=
  let trimmed := trimSlashes (dropRelativeStart (collapseSlashes (dropDoubleDots cs)))
  if trimmed = ['.'] then [] else trimmed

theorem dropDoubleDots_sublist (cs : List Char) : (dropDoubleDots cs).Sublist cs := by
  fun_induction dropDoubleDots cs with
  | case1 cs ih => exact (ih.cons _).cons _
  | case2 c cs _ ih => exact ih.cons_cons c
  | case3 => exact .slnil

theorem collapseSlashes_sublist (cs : List Char) : (collapseSlashes cs).Sublist cs := by
  fun_induction collapseSlashes cs with
  | case1 cs ih => exact ih.cons _
  | case2 c cs _ ih => exact ih.cons_cons c
  | case3 => exact .slnil

theorem dropRelativeStart_sublist (cs : List Char) : (dropRelativeStart cs).Sublist cs := by
  fun_induction dropRelativeStart cs with
  | case1 cs ih => exact ((ih.cons _).cons _).cons _
  | case2 cs ih => exact (ih.cons _).cons _
  | case3 => exact List.Sublist.refl _

theorem trimSlashes_sublist (cs : List Char) : (trimSlashes cs).Sublist cs := by
  have back := List.dropWhile_sublist (fun c => c == '/')
    (l := (cs.dropWhile (· == '/')).reverse)
  exact (List.reverse_sublist.mp (by simpa [trimSlashes] using back)).trans
    (List.dropWhile_sublist _)

/-- Normalization only leaves characters out. -/
theorem normalizeOnce_sublist (cs : List Char) : (normalizeOnce cs).Sublist cs := by
  have kept := (((trimSlashes_sublist _).trans (dropRelativeStart_sublist _)).trans
    (collapseSlashes_sublist _)).trans (dropDoubleDots_sublist cs)
  unfold normalizeOnce
  dsimp only
  split
  · exact List.nil_sublist cs
  · exact kept

/-- Rounds of normalization until nothing changes. -/
def normalizeChars (cs : List Char) : List Char :=
  let next := normalizeOnce cs
  if _h : next = cs then next else normalizeChars next
termination_by cs.length
decreasing_by
  have kept := normalizeOnce_sublist cs
  exact Nat.lt_of_le_of_ne kept.length_le fun same => _h (kept.eq_of_length same)

/-- A destination as it is put in front of others: with slashes alone, without `..`, without
`./` at its start, without slashes at its ends or next to each other, and not `.`. -/
def normalize (raw : String) : String :=
  String.ofList (normalizeChars (raw.toList.map fun c => if c = '\\' then '/' else c))

def nameOnly (path : Path) : Path :=
  ⟨path.fileName?.getD ""⟩

def sharedStart : List Component → List Component → List Component
  | a :: as, b :: bs => if a = b then a :: sharedStart as bs else []
  | _, _ => []

/-- The components of the directory of a path. -/
def directorySteps (path : Path) : List Component :=
  match path.parent? with
  | some directory => directory.components
  | none => []

/-- The longest directory that all of some paths share. -/
def sharedDirectory : List Path → Path
  | [] => ⟨""⟩
  | path :: paths =>
    Path.ofComponents
      (paths.foldl (fun shared other => sharedStart shared (directorySteps other))
        (directorySteps path))

/-- A path below a directory, or the path itself if it is not below. -/
def strip (path directory : Path) : Path :=
  (path.below? directory).getD path

/-- The names of a path below a root. A path that is not below loses its root and its dots
instead. -/
def relative (path root : Path) : Path :=
  Path.ofComponents ((strip path root).components.filter (·.isName))

/-- Some destinations trimmed by a policy. -/
def trim (policy : TrimPolicy) (paths : List Path) : List Path :=
  match policy with
  | .keep => paths
  | .nameOnly => paths.map nameOnly
  | .minimal => paths.map (strip · (sharedDirectory paths))

/-- A destination below a prefix, which is first brought into its normal form; an empty one
changes nothing. -/
def place (raw : String) (path : Path) : Path :=
  let above := normalize raw
  if above = "" then path else (Path.mk above).join path

end Destination

end PackageSheet
