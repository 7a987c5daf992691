import PackageSheet.Proofs.Session.Listing
import PackageSheet.Proofs.FileList.Pattern

namespace PackageSheet

namespace Session

/-- Excluding a pattern undoes including it. A list with one rule that excludes each pattern which it
includes is resolved to no entries, if the patterns take back what they find: in memory those that are
absolute, or below whose root the files go on with names alone; in a tree on a disk those in which no
component is empty and, below a root, none in front of the last stands for `.` or `..`. -/
theorem fileList_undone (session : Session) (name : String) (recipe : Recipe)
    (unvisited : session.progress? name = some .unvisited)
    (rules : session.site.recipes name = [recipe])
    (undone : ∀ token ∈ recipe.includes, token.value ∉ session.listNames ∧
      (∃ other ∈ recipe.excludes, other.value = token.value) ∧
      session.site.storage.TakesBack recipe.root.value token.value) :
    (session.fileList name).1 = some [] := by
  obtain ⟨making, site, own, start, resolved⟩ := Site.resolve_eq unvisited rules
  have nothing : making.entries = [] := by
    refine making.entries_eq_nil ?_ ?_
    · rw [Making.ArePatterns, own, start]
      exact fun token member => Slots.declares_eq_false_iff.mpr (undone token member).1
    · rw [own, site]
      intro token member
      obtain ⟨-, ⟨other, excluded, same⟩, back⟩ := undone token member
      exact ⟨other, excluded, same, back.undoes⟩
  rw [← nothing]
  exact resolved

/-- A rule for a list of patterns that are all excluded again. -/
def hollowRule : Rule where
  name := "files"
  parameter := some "none"
  properties := [⟨"include", ["*.txt", "**/b.*"], {}⟩, ⟨"exclude", ["**/b.*", "*.txt"], {}⟩]

/-- A session on a sheet with that rule alone. -/
def hollow (storage : Storage) : Session :=
  begin { scope := { sheet := {} }, storage } { rules := [hollowRule] } []

private theorem undone_hollow {storage : Storage}
    (back : ∀ pattern ∈ ["*.txt", "**/b.*"],
      storage.TakesBack storage.workingDirectory pattern) :
    ∀ token ∈ ((hollow storage).site.recipe hollowRule).includes,
      token.value ∉ (hollow storage).listNames ∧
      (∃ other ∈ ((hollow storage).site.recipe hollowRule).excludes, other.value = token.value) ∧
      storage.TakesBack ((hollow storage).site.recipe hollowRule).root.value token.value := by
  have texts : (hollowRule.view "include").values = ["*.txt", "**/b.*"] := by decide
  have others : (hollowRule.view "exclude").values = ["**/b.*", "*.txt"] := by decide
  have root : ((hollow storage).site.recipe hollowRule).root.value = storage.workingDirectory := rfl
  intro token member
  obtain ⟨text, listed, rfl⟩ := List.mem_map.mp member
  rw [texts] at listed
  have value : ((hollow storage).site.expand text (some hollowRule.location)).value = text := by
    refine Site.value_expand ?_ _
    rcases List.mem_pair.mp listed with rfl | rfl <;> decide
  rw [value, root]
  refine ⟨?_, ⟨_, List.mem_map_of_mem (a := text) ?_, value⟩, back text listed⟩
  · have names : (hollow storage).listNames = ["none"] := rfl
    rw [names]
    rcases List.mem_pair.mp listed with rfl | rfl <;> decide
  · rw [others]
    exact List.mem_pair.mpr (List.mem_pair.mp listed).symm

/-- A disk with a file, and a directory beside it that has another one. -/
def beside : Disk where
  nodes :=
    [(["a"], .directory), (["a", "k.txt"], .file .empty), (["x.txt"], .file .empty)]
  workingDirectory := ⟨"/a"⟩

theorem isTree_beside : beside.IsTree := by
  refine .of_nodes (by decide) ?_
  simp only [beside, List.forall_mem_cons]
  refine ⟨?_, ?_, ?_, nofun⟩ <;> refine ⟨by decide, rfl⟩

def texts : Memory where
  files := [(⟨"/work/a.md"⟩, ""), (⟨"/work/b.txt"⟩, "")]

private theorem namedBelow_texts : texts.NamedBelow ⟨"/work"⟩ := by
  have root : Glob.rootText ⟨"/work"⟩ = "/work".toList := by decide
  have cut (name : String) {rest : List Char}
      (whole : "/work/".toList ++ name.toList = "/work".toList ++ '/' :: rest) :
      rest = name.toList := by
    simpa using whole.symm
  intro file held rest whole
  rw [root] at whole
  rcases List.mem_pair.mp held with rfl | rfl
  · rw [cut "a.md" whole]
    decide
  · rw [cut "b.txt" whole]
    decide

/-- Nothing is left of the files in memory and of those on the disk. -/
theorem fileList_hollow :
    ((hollow (.inMemory texts)).fileList "none").1 = some [] ∧
      ((hollow (.onDisk beside)).fileList "none").1 = some [] := by
  constructor
  · refine fileList_undone _ "none" _ rfl rfl (undone_hollow fun pattern _ => ?_)
    exact .inMemory (.inr namedBelow_texts)
  · refine fileList_undone _ "none" _ rfl rfl (undone_hollow fun pattern listed => ?_)
    refine .onDisk isTree_beside ?_
    rcases List.mem_pair.mp listed with rfl | rfl <;> decide +kernel

/-- A pattern that goes up from its root is not undone: it finds the file under a name that begins
with the root, of which only names are compared. -/
theorem undoes_failed :
    beside.IsTree ∧ beside.glob ⟨"a"⟩ "../x.txt" = .ok [⟨"a/../x.txt"⟩] ∧
      ¬ (Storage.onDisk beside).Undoes ⟨"a"⟩ "../x.txt" := by
  have found : beside.glob ⟨"a"⟩ "../x.txt" = .ok [⟨"a/../x.txt"⟩] := by decide +kernel
  refine ⟨isTree_beside, found, fun undoes => ?_⟩
  obtain ⟨exclusion, compiled, excluded⟩ := undoes _ found
  have taken := excluded ⟨"a/../x.txt"⟩ (List.mem_singleton_self _)
  have own : (Glob.Exclusion.compile "../x.txt").map (·.excludes ⟨"a/../x.txt"⟩) = .ok false := by
    decide +kernel
  rw [compiled] at own
  exact absurd (taken.symm.trans (Except.ok.inj own)) (by decide)

end Session

end PackageSheet
