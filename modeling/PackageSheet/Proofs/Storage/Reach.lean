import Mathlib.Data.List.Induction
import PackageSheet.Proofs.Storage.Found

namespace PackageSheet

open Glob

namespace Disk

/-- The names by which steps lead from a place to files. -/
def reached (disk : Disk) : List Step → Place → List Place
  | [], _ => [[]]
  | step :: steps, place =>
    if step.isDescent then
      match steps with
      | [] => []
      | next :: rest =>
        if next.isDescent then reached disk (next :: rest) place
        else
          (disk.below place).flatMap fun names =>
            if next.accepts (names.getLast?.getD "") then
              (reached disk rest (place ++ names)).map (names ++ ·)
            else []
    else
      (disk.names place).flatMap fun name =>
        if step.accepts name then (reached disk steps (place ++ [name])).map (name :: ·) else []

/-- Whatever is below a place can be looked up behind a path. -/
def Fits (disk : Disk) (path : Path) (place : Place) : Prop :=
  Admits path ∧ ∀ names ∈ disk.below place, Admits (names.foldl child path)

instance (disk : Disk) (path : Path) (place : Place) : Decidable (disk.Fits path place) :=
  inferInstanceAs (Decidable (_ ∧ _))

variable {disk : Disk} {path : Path} {place names : Place} {step next : Step} {steps : List Step}

theorem leads_of_mem_below (tree : disk.IsTree) (member : names ∈ disk.below place) :
    disk.Leads place (names.map String.toList) (place ++ names) := by
  obtain ⟨filled, listed⟩ := mem_below_iff.mp member
  have there : (disk.node? (place ++ names)).isSome = true :=
    (isSome_node?_iff (List.append_ne_nil_of_right_ne_nil _ filled)).mpr listed
  have known (name : String) (own : name ∈ names) : disk.Names name := by
    obtain ⟨node, inside, whole⟩ := List.mem_map.mp listed
    exact ⟨node, inside, whole ▸ List.mem_append_right _ own⟩
  clear member filled listed
  induction names using List.reverseRecOn with
  | nil => simp
  | append_singleton front last ih =>
    obtain ⟨node, found⟩ := Option.isSome_iff_exists.mp there
    have directory : disk.node? (place ++ front) = some .directory := by
      have above := tree.inside _ _ found
      rwa [← List.append_assoc, List.dropLast_concat] at above
    have own : disk.Names last := known last (by simp)
    have early := ih (by rw [directory]; rfl) fun name inside => known name (List.mem_append_left _ inside)
    rw [List.map_append, leads_append]
    refine ⟨_, early, leads_singleton.mpr ((follow_name (tree.named last own)).mpr ?_)⟩
    rw [List.append_assoc]
    exact ⟨directory, (tree.legal last own).2, there, rfl⟩

private theorem Fits.child (fits : disk.Fits path place) (member : names ∈ disk.below place) :
    disk.Fits (names.foldl Disk.child path) (place ++ names) := by
  refine ⟨fits.2 names member, fun others behind => ?_⟩
  rw [← List.foldl_append]
  refine fits.2 _ (mem_below_iff.mpr ⟨?_, ?_⟩)
  · exact List.append_ne_nil_of_left_ne_nil (mem_below_iff.mp member).1 _
  · rw [← List.append_assoc]
    exact (mem_below_iff.mp behind).2

/-- A path that others are found behind: a trail that leads to a place, where whatever is below can be
looked up. -/
structure LeadsTo (disk : Disk) (path : Path) (place : Place) : Prop where
  trail : IsTrail path
  located : disk.locate path = .ok place
  fits : disk.Fits path place

theorem LeadsTo.behind (tree : disk.IsTree) (leads : disk.LeadsTo path place)
    (member : names ∈ disk.below place) :
    disk.LeadsTo (names.foldl Disk.child path) (place ++ names) := by
  have named (name : String) (own : name ∈ names) : Path.IsName name.toList := by
    obtain ⟨node, inside, whole⟩ := List.mem_map.mp (mem_below_iff.mp member).2
    exact tree.named name ⟨node, inside, whole ▸ List.mem_append_right _ own⟩
  have follow := leads.trail.mayFollowAll_of_names named
  refine ⟨(leads.trail.foldl_child follow).1, ?_, leads.fits.child member⟩
  exact (leads.trail.locate_foldl follow (leads.fits.2 names member)).mpr
    ⟨place, leads.located, leads_of_mem_below tree member⟩

private theorem isFile_eq_false_of_isDirectory (directory : disk.isDirectory path = true) :
    disk.isFile path = false := by
  obtain ⟨place, located, held⟩ := isDirectory_iff.mp directory
  rw [← Bool.not_eq_true, isFile_iff]
  rintro ⟨other, content, there, file⟩
  rw [located] at there
  cases there
  rw [held] at file
  cases file

theorem isDirectory_eq (located : disk.locate path = .ok place) :
    disk.isDirectory path = true ↔ disk.node? place = some .directory := by
  rw [isDirectory_iff, located]
  simp

theorem below_eq_nil (tree : disk.IsTree) (other : disk.node? place ≠ some .directory) :
    disk.below place = [] := by
  rw [List.eq_nil_iff_forall_not_mem]
  intro names member
  have leads := leads_of_mem_below tree member
  obtain ⟨name, rest, rfl⟩ := List.exists_cons_of_ne_nil (mem_below_iff.mp member).1
  obtain ⟨next, followed, -⟩ := leads_cons.mp leads
  exact other (node?_of_follow followed)

theorem mem_below_singleton {name : String} (member : name ∈ disk.names place) :
    [name] ∈ disk.below place := by
  rw [mem_names, isSome_node?_iff (List.append_ne_nil_of_right_ne_nil _ (by simp))] at member
  exact mem_below_iff.mpr ⟨by simp, member⟩

private theorem isLiteral_of_isDescent (compiled : step.IsCompiled) (deep : step.isDescent = true) :
    step.isLiteral = false := by
  rw [← Bool.not_eq_true]
  intro written
  rw [(compiled.literal written).1] at deep
  cases deep

private theorem search_descent_end (other : step.isLiteral = false) (deep : step.isDescent = true) :
    disk.search [step] path =
      if disk.isDirectory path then ((disk.descendants path).map (·.2)).filter disk.isDirectory
      else [] := by
  rw [search.eq_def]
  dsimp only
  rw [if_neg (by simp [other])]
  by_cases directory : disk.isDirectory path = true
  · rw [if_neg (by simp [directory]), if_pos deep, if_pos directory]
  · rw [if_pos (by simp [directory]), if_neg directory]

private theorem search_descent_descent (other : step.isLiteral = false) (deep : step.isDescent = true)
    (nextOther : next.isLiteral = false) (deeper : next.isDescent = true) :
    disk.search (step :: next :: steps) path = disk.search (next :: steps) path := by
  by_cases directory : disk.isDirectory path = true
  · rw [search.eq_def]
    dsimp only
    rw [if_neg (by simp [other]), if_neg (by simp [directory]), if_pos deep, if_pos deeper]
  · have nowhere {step : Step} {steps : List Step} (other : step.isLiteral = false) :
        disk.search (step :: steps) path = [] := by
      rw [search.eq_def]
      dsimp only
      rw [if_neg (by simp [other]), if_pos (by simp [directory])]
    rw [nowhere other, nowhere nextOther]

private theorem search_descent_name (other : step.isLiteral = false) (deep : step.isDescent = true)
    (flat : next.isDescent = false) :
    disk.search (step :: next :: steps) path =
      if disk.isDirectory path then
        (disk.descendants path).flatMap fun (name, found) =>
          if next.accepts name then disk.search steps found else []
      else [] := by
  rw [search.eq_def]
  dsimp only
  rw [if_neg (by simp [other])]
  by_cases directory : disk.isDirectory path = true
  · rw [if_neg (by simp [directory]), if_pos deep, if_neg (by simp [flat]), if_pos directory]
  · rw [if_pos (by simp [directory]), if_neg directory]

private theorem exists_locate_of_holds (held : disk.holds path = true) :
    ∃ place, disk.locate path = .ok place := by
  unfold holds nodeAt? at held
  cases located : disk.locate path with
  | error failure =>
    rw [located] at held
    cases held
  | ok place => exact ⟨place, rfl⟩

private theorem allows_of_mem_names (tree : disk.IsTree) {name : String}
    (listed : name ∈ disk.names place)
    (leads : disk.LeadsTo path place) : disk.allows path name = true := by
  have there := mem_names.mp listed
  unfold allows
  split
  · rename_i dots
    obtain ⟨node, inside, whole⟩ := List.mem_map.mp
      ((isSome_node?_iff (List.append_ne_nil_of_right_ne_nil _ (by simp))).mp there)
    have known : disk.Names name :=
      ⟨node, inside, whole ▸ List.mem_append_right _ (List.mem_singleton_self _)⟩
    have own := tree.named _ known
    rcases dots with dot | dots
    · exact absurd (dot ▸ own.not_current) (by decide)
    · exact absurd (dots ▸ own.not_parent) (by decide)
  · exact holds_of_locate (leads.behind tree (mem_below_singleton listed)).located there

private theorem mem_names_of_allows {name : String} (own : Path.IsName name.toList)
    (allowed : disk.allows path name = true) (leads : disk.LeadsTo path place) :
    name ∈ disk.names place := by
  have held : disk.holds (Disk.child path name) = true := by
    unfold allows at allowed
    rwa [if_neg (not_or.mpr ⟨fun dot => own.not_current (by rw [dot]; rfl),
      fun dots => own.not_parent (by rw [dots]; rfl)⟩)] at allowed
  obtain ⟨last, there⟩ := exists_locate_of_holds held
  obtain ⟨here, located, followed⟩ := (leads.trail.locate_child ⟨own.bare, fun _ => own.ne_nil⟩
    (locate_eq_ok_iff.mp there).1).mp there
  rw [leads.located] at located
  cases located
  exact mem_names.mpr ((follow_name own).mp followed).2.2.1

private theorem filter_search_literal (tree : disk.IsTree) (flat : Step.AreFlat (step :: steps))
    (written : step.isLiteral = true) (leads : disk.LeadsTo path place) :
    (disk.search (step :: steps) path).filter disk.isFile =
      if String.ofList step.text ∈ disk.names place then
        (disk.search steps (Disk.child path (String.ofList step.text))).filter disk.isFile
      else [] := by
  obtain ⟨compiled, bare, special, -⟩ := flat.tail
  have text : (String.ofList step.text).toList = step.text := String.toList_ofList
  rw [search_literal written]
  by_cases listed : String.ofList step.text ∈ disk.names place
  · rw [if_pos listed, if_pos (allows_of_mem_names tree listed leads)]
  · rw [if_neg listed]
    split
    · rename_i allowed
      have unnamed : ¬ Path.IsName step.text := fun own =>
        listed (mem_names_of_allows (text.symm ▸ own) allowed leads)
      have dots : step.text = ['.'] ∨ step.text = ['.', '.'] := by
        by_contra other
        obtain ⟨current, parent⟩ := not_or.mp other
        exact unnamed ⟨bare.1, bare.2, current, parent⟩
      have last : steps = [] := by
        by_contra some
        exact unnamed (Step.isName_of_specials compiled bare (special some))
      obtain ⟨front, segments⟩ := exists_segments_child path (text.symm ▸ bare.2)
      subst last
      rw [search, List.filter_cons, isFile_of_special tree (text.symm ▸ dots) segments]
      rfl
    · rfl

private theorem filter_search_specials (tree : disk.IsTree) (flat : Step.AreFlat (step :: steps)) :
    (step.specials.flatMap fun name => disk.search steps (path.join ⟨name⟩)).filter disk.isFile =
      [] := by
  obtain ⟨-, -, special, -⟩ := flat.tail
  by_cases last : steps = []
  · subst last
    refine List.filter_eq_nil_iff.mpr fun found member => ?_
    obtain ⟨name, own, same⟩ := List.mem_flatMap.mp member
    rw [search, List.mem_singleton] at same
    obtain ⟨front, segments⟩ := Path.exists_segments_join path (Step.isBare_of_mem_specials own).2
    have dots : name.toList = ['.'] ∨ name.toList = ['.', '.'] := by
      rcases Step.cases_of_mem_specials own with rfl | rfl
      · exact .inr rfl
      · exact .inl rfl
    rw [same, isFile_of_special tree dots segments]
    exact Bool.false_ne_true
  · rw [special last]
    rfl

private theorem filter_search_plain (tree : disk.IsTree) (flat : Step.AreFlat (step :: steps))
    (plain : step.isDescent = false) (leads : disk.LeadsTo path place) :
    (disk.search (step :: steps) path).filter disk.isFile =
      ((disk.names place).flatMap fun name =>
        if step.accepts name then disk.search steps (Disk.child path name) else []).filter
          disk.isFile := by
  have compiled := flat.tail.1
  have children : disk.children path = disk.names place := by rw [children, leads.located]
  by_cases written : step.isLiteral = true
  · have accepts (name : String) :
        (if step.accepts name = true then disk.search steps (Disk.child path name) else []) =
          if name = String.ofList step.text then disk.search steps (Disk.child path name)
          else [] := by
      refine if_congr ?_ rfl rfl
      rw [(compiled.literal written).2, ← String.toList_inj, String.toList_ofList]
    have distinct := tree.nodup_children path
    rw [children] at distinct
    simp only [accepts]
    rw [filter_search_literal tree flat written leads, flatMap_only distinct]
    split <;> rfl
  · rw [search_names ((Bool.not_eq_true _).mp written) plain, children]
    split
    · rw [List.filter_append, filter_search_specials tree flat, List.nil_append]
    · rename_i other
      have nothing : disk.names place = [] := by
        rw [names, below_eq_nil tree ((isDirectory_eq leads.located).not.mp other)]
        rfl
      rw [nothing]
      rfl

/-- What a plain pattern finds behind a path are the names by which its steps lead from the place of
the path. -/
theorem search_eq_reached (tree : disk.IsTree) (flat : Step.AreFlat steps)
    (leads : disk.LeadsTo path place) :
    (disk.search steps path).filter disk.isFile =
      ((disk.reached steps place).map (·.foldl Disk.child path)).filter disk.isFile := by
  fun_induction reached disk steps place generalizing path with
  | case1 place => rfl
  | case2 step place deep =>
    obtain ⟨own, -⟩ := flat.tail
    rw [search_descent_end (isLiteral_of_isDescent own deep) deep]
    split
    · refine List.filter_eq_nil_iff.mpr fun found member => ?_
      rw [isFile_eq_false_of_isDirectory (List.mem_filter.mp member).2]
      exact Bool.false_ne_true
    · rfl
  | case3 step place deep next rest deeper ih =>
    obtain ⟨own, -, -, flat⟩ := flat.tail
    have nextOwn := flat.tail.1
    rw [← ih flat leads, search_descent_descent (isLiteral_of_isDescent own deep) deep
      (isLiteral_of_isDescent nextOwn deeper) deeper]
  | case4 step place deep next rest plain ih =>
    obtain ⟨own, -, -, flat⟩ := flat.tail
    rw [search_descent_name (isLiteral_of_isDescent own deep) deep ((Bool.not_eq_true _).mp plain)]
    have listed : (if disk.isDirectory path then
        (disk.descendants path).flatMap fun (name, found) =>
          if next.accepts name then disk.search rest found else []
        else []) = (disk.below place).flatMap fun names =>
          if next.accepts (names.getLast?.getD "") then
            disk.search rest (names.foldl Disk.child path)
          else [] := by
      split
      · rw [descendants, leads.located]
        dsimp only
        rw [List.flatMap_map]
      · rename_i other
        rw [below_eq_nil tree ((isDirectory_eq leads.located).not.mp other)]
        rfl
    rw [listed, List.filter_flatMap, List.map_flatMap, List.filter_flatMap]
    refine List.flatMap_congr fun names member => ?_
    split
    · rw [ih names flat.tail.2.2.2 (leads.behind tree member), List.map_map]
      simp only [Function.comp_def, List.foldl_append]
    · rfl
  | case5 step steps place plain ih =>
    rw [filter_search_plain tree flat ((Bool.not_eq_true _).mp plain) leads, List.map_flatMap,
      List.filter_flatMap, List.filter_flatMap]
    refine List.flatMap_congr fun name member => ?_
    split
    · have further := leads.behind tree (mem_below_singleton member)
      rw [List.map_map]
      exact ih name flat.tail.2.2.2 further
    · rfl

end Disk

end PackageSheet
