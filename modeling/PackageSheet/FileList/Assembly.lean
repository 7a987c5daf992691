import PackageSheet.Diagnostic.Journal
import PackageSheet.FileList.Recipe
import PackageSheet.FileList.Slot

/-!
Assembling file lists. Lists ask for one another; a list that is asked for while it is in progress
closes a circle, which is reported once and adds nothing. Work on a list begins only where it was
not visited, so a budget of one step for each declared list is enough.
-/

namespace PackageSheet

/-- Why a file list cannot be had. Each reason is reported once for each list. -/
inductive ListFault where
  | undefined (name : String)
  | circular (name : String)
  | ambiguous (name : String)
deriving DecidableEq

/-- The slots of the declared file lists, and what was reported during the work on them. -/
structure Assembly where
  slots : Slots := []
  journal : Journal ListFault := {}

namespace Assembly

def reportAll (assembly : Assembly) (ds : List Diagnostic) : Assembly :=
  { assembly with journal := assembly.journal.reportAll ds }

def note (assembly : Assembly) (text : String) : Assembly :=
  { assembly with journal := assembly.journal.note text }

def complain (assembly : Assembly) (fault : ListFault) (problem : Problem)
    (location : Option Location) : Assembly :=
  { assembly with journal := assembly.journal.reportOnce fault (problem.diagnose location) }

def mark (assembly : Assembly) (name : String) (progress : Progress) : Assembly :=
  { assembly with slots := assembly.slots.mark name progress }

end Assembly

namespace Site

/-- A request for a file list, as it changes the assembly. -/
abbrev Request := String → Assembly → Assembly

/-- The entries that a token includes: those of the declared list of that name, if it is done
after a request for it, or those for the files that the token stands for as a pattern. -/
def including (site : Site) (request : Request) (recipe : Recipe) (token : String)
    (assembly : Assembly) : List Entry × Assembly :=
  if assembly.slots.declares token then
    let after := request token assembly
    ((after.slots.entries? token).getD [], after)
  else
    let found := site.found recipe token
    (found.value, assembly.reportAll found.reports)

/-- The entries that a token leaves over: it excludes the files of the declared list of that name,
if it is done after a request for it, or those that the token stands for as a pattern. -/
def excluding (request : Request) (recipe : Recipe) (token : String) (entries : List Entry)
    (assembly : Assembly) : List Entry × Assembly :=
  if assembly.slots.declares token then
    let after := request token assembly
    (Entry.without entries ((after.slots.entries? token).getD []), after)
  else
    let kept := kept recipe token entries
    (kept.value, assembly.reportAll kept.reports)

/-- Include tokens one after another. -/
def includeAll (site : Site) (request : Request) (recipe : Recipe) :
    List (Reported String) → List Entry → Assembly → List Entry × Assembly
  | [], entries, assembly => (entries, assembly)
  | token :: tokens, entries, assembly =>
    let (more, after) :=
      site.including request recipe token.value (assembly.reportAll token.reports)
    site.includeAll request recipe tokens (Entry.gather entries more) after

/-- Exclude tokens one after another. -/
def excludeAll (request : Request) (recipe : Recipe) :
    List (Reported String) → List Entry → Assembly → List Entry × Assembly
  | [], entries, assembly => (entries, assembly)
  | token :: tokens, entries, assembly =>
    let (left, after) :=
      excluding request recipe token.value entries (assembly.reportAll token.reports)
    excludeAll request recipe tokens left after

/-- Assemble the file list of a recipe. -/
def assemble (site : Site) (request : Request) (recipe : Recipe) (assembly : Assembly) :
    Assembly :=
  let begun := (assembly.mark recipe.name .inProgress).note "resolving file list"
  let (gathered, included) :=
    site.includeAll request recipe recipe.includes [] (begun.reportAll recipe.root.reports)
  let (left, excluded) := excludeAll request recipe recipe.excludes gathered included
  let entries :=
    Entry.place recipe.destination.value (Entry.trim recipe.policy.value left)
  let reported := excluded.reportAll (recipe.policy.reports ++ recipe.destination.reports)
  (reported.note "resolved file list").mark recipe.name (.done entries)

/-- Request the file list of a name. Work on a list that was not visited takes one step of the
budget. -/
def visit (site : Site) (budget : Nat) (name : String) (assembly : Assembly) : Assembly :=
  match assembly.slots.progress? name with
  | none => assembly.complain (.undefined name) (.undefinedList name) none
  | some (.done _) => assembly
  | some .inProgress => assembly.complain (.circular name) (.circularList name) none
  | some .unvisited =>
    match site.recipes name with
    | [] => assembly.complain (.undefined name) (.undefinedList name) none
    | [recipe] =>
      match budget with
      | 0 => assembly
      | budget + 1 => site.assemble (site.visit budget) recipe assembly
    | first :: _ :: others =>
      assembly.complain (.ambiguous name)
        (.ambiguousList name (others.length + 2)) (some first.location)

/-- Request the file list of a name with steps for all declared lists. -/
def resolve (site : Site) (name : String) (assembly : Assembly) :
    Option (List Entry) × Assembly :=
  let after := site.visit assembly.slots.length name assembly
  (after.slots.entries? name, after)

end Site

end PackageSheet
