import PackageSheet.Proofs.Path.Below
import PackageSheet.Proofs.Storage.Tree

namespace PackageSheet

def Component.isMove : Component → Bool
  | .parent | .name _ => true
  | .root | .current => false

namespace Path

variable {path directory : Path} {segs others : List (List Char)}

theorem isMove_of_mem_steps {c : Component} (member : c ∈ steps segs) : c.isMove = true := by
  obtain ⟨segment, -, rfl⟩ := List.mem_map.mp member
  unfold step
  split <;> rfl

theorem steps_eq_filter (path : Path) :
    steps (segments path.text.toList) = path.components.filter (·.isMove) := by
  have anchor : path.anchor.toList.filter (·.isMove) = [] := by
    rcases path.anchor_cases with own | own | own <;> rw [own] <;> rfl
  rw [components_eq, List.filter_append, anchor, List.nil_append,
    List.filter_eq_self.mpr fun _ => isMove_of_mem_steps]

theorem isAbsolute_iff_mem : path.isAbsolute = true ↔ .root ∈ path.components := by
  have apart : .root ∉ steps (segments path.text.toList) := fun member =>
    absurd (isMove_of_mem_steps member) (by decide)
  rw [isAbsolute_iff, components_eq, List.mem_append, or_iff_left apart]
  rcases path.anchor_cases with own | own | own <;> simp [own]

/-- A relative path behind another one starts where that does. -/
theorem isAbsolute_join {base other : Path} (relative : other.isAbsolute = false)
    (filled : base.text.toList ≠ []) : (base.join other).isAbsolute = base.isAbsolute := by
  have heads (path : Path) : path.isAbsolute = true ↔ path.text.toList.head? = some '/' := by
    rw [isAbsolute_iff_text, List.head?_eq_some_iff]
  rw [Bool.eq_iff_iff, heads, heads]
  rcases join_cases base relative with ⟨empty, -⟩ | ⟨cs, text, joined⟩ | ⟨-, -, joined⟩
  · exact absurd empty filled
  · rw [joined, text, String.toList_ofList]
    cases cs <;> simp
  · obtain ⟨c, cs, text⟩ := List.exists_cons_of_ne_nil filled
    rw [joined, text, String.toList_ofList]
    simp

private theorem intercalate_prefix (front : segs <+: others) :
    ['/'].intercalate segs <+: ['/'].intercalate others := by
  obtain ⟨more, rfl⟩ := front
  cases segs with
  | nil => exact List.nil_prefix
  | cons first segs =>
    rw [List.cons_append, intercalate_cons, intercalate_cons, List.flatMap_append,
      ← List.append_assoc]
    exact List.prefix_append _ _

private theorem flatMap_slash (some : segs ≠ []) :
    segs.flatMap ('/' :: ·) = '/' :: ['/'].intercalate segs := by
  obtain ⟨first, rest, rfl⟩ := List.exists_cons_of_ne_nil some
  rw [intercalate_cons, List.flatMap_cons]
  rfl

private theorem text_parent?_prefix (found : path.parent? = some directory) :
    directory.text.toList <+: path.text.toList := by
  rcases path.parent?_cases with ⟨before, last, own⟩ | ⟨-, own⟩
  · obtain ⟨-, -, inside⟩ := steps_of_beforeLastStep? last
    rw [own, anchor] at found
    cases found
    have front : dropIdleEnd before <+: path.divide.2 :=
      (List.rdropWhile_prefix (!isStep ·) before).trans inside
    generalize dropIdleEnd before = kept at front
    have prefixed := intercalate_prefix front
    have text := intercalate_segments path.text.toList
    rcases divide_cases path with ⟨whole, -⟩ | ⟨rest, some, whole, segs⟩ | ⟨rest, whole, segs⟩
    · rw [whole] at prefixed ⊢
      rw [intercalate_segments] at prefixed
      simpa [ofDivision] using prefixed
    · rw [whole] at prefixed ⊢
      rw [segs, intercalate_cons, flatMap_slash some] at text
      rw [← text]
      simpa [ofDivision] using prefixed
    · rw [whole] at prefixed front ⊢
      rw [segs, intercalate_cons] at text
      rw [← text]
      by_cases none : kept = []
      · subst none
        have dot : (ofDivision (some .current) []).text.toList = ['.'] := by decide
        rw [dot]
        exact List.prefix_append _ _
      · have some : rest ≠ [] := fun empty => none (List.prefix_nil.mp (empty ▸ front))
        rw [flatMap_slash some]
        simpa [ofDivision, none, Component.text] using prefixed
  · rw [own] at found
    split at found
    · cases found
      exact List.nil_prefix
    · cases found

private theorem exists_parent_of_isName {front : List (List Char)} {last : List Char}
    (ends : segments path.text.toList = front ++ [last]) (own : IsName last) :
    ∃ parent, path.parent? = some parent ∧ parent.isAbsolute = path.isAbsolute ∧
      parent.components.filter (·.isMove) = steps front := by
  have split : steps (segments path.text.toList) = steps front ++ [.name (String.ofList last)] := by
    rw [ends, steps_append, steps_cons_of_isStep own.isStep, own.step, steps_nil]
  have whole : path.components =
      (path.anchor.toList ++ steps front) ++ [.name (String.ofList last)] := by
    rw [components_eq, split, List.append_assoc]
  obtain ⟨parent, found⟩ : ∃ parent, path.parent? = some parent := by
    rw [← Option.ne_none_iff_exists']
    intro none
    rcases components_of_parent?_eq_none none with empty | root
    · simp [whole] at empty
    · rw [whole, List.append_eq_singleton_iff] at root
      simp at root
  have above : path.components = parent.components ++ [.name (String.ofList last)] := by
    rw [components_parent? found, whole, List.dropLast_concat]
  refine ⟨parent, found, ?_, ?_⟩
  · rw [Bool.eq_iff_iff, isAbsolute_iff_mem, isAbsolute_iff_mem, above]
    simp
  · rw [steps_eq_filter, above, List.filter_append] at split
    exact List.append_cancel_right split

end Path

namespace Disk

variable {disk : Disk} {path base other : Path} {place last : Place} {segs : List (List Char)}

theorem leads_steps (leads : disk.Leads place segs last) :
    disk.Leads place ((Path.steps segs).map (·.text.toList)) last := by
  induction segs generalizing place with
  | nil => exact leads
  | cons segment segs ih =>
    obtain ⟨next, first, leads⟩ := leads_cons.mp leads
    by_cases counts : Path.isStep segment = true
    · rw [Path.steps_cons_of_isStep counts, List.map_cons, Path.text_step]
      exact leads_cons.mpr ⟨next, first, ih leads⟩
    · have idle : segment = [] ∨ segment = ['.'] := by
        simpa [Path.isStep, or_iff_not_imp_left] using counts
      obtain ⟨-, rfl⟩ := (follow_idle idle).mp first
      rw [Path.steps_cons_of_idle ((Bool.not_eq_true _).mp counts)]
      exact ih leads

theorem leads_iff_of_directory (directory : disk.node? last = some .directory) :
    disk.Leads place segs last ↔
      disk.Leads place ((Path.steps segs).map (·.text.toList)) last := by
  refine ⟨leads_steps, fun leads => ?_⟩
  induction segs generalizing place with
  | nil => exact leads
  | cons segment segs ih =>
    by_cases counts : Path.isStep segment = true
    · rw [Path.steps_cons_of_isStep counts, List.map_cons, Path.text_step] at leads
      obtain ⟨next, first, leads⟩ := leads_cons.mp leads
      exact leads_cons.mpr ⟨next, first, ih leads⟩
    · have idle : segment = [] ∨ segment = ['.'] := by
        simpa [Path.isStep, or_iff_not_imp_left] using counts
      rw [Path.steps_cons_of_idle ((Bool.not_eq_true _).mp counts)] at leads
      have later := ih leads
      refine leads_cons.mpr ⟨place, (follow_idle idle).mpr ⟨?_, rfl⟩, later⟩
      cases segs with
      | nil => rwa [leads_nil.mp later]
      | cons second segs =>
        obtain ⟨next, followed, -⟩ := leads_cons.mp later
        exact node?_of_follow followed

/-- Which directory a path leads to depends on its components alone. -/
theorem locate_iff_of_directory (directory : disk.node? place = some .directory) :
    disk.locate path = .ok place ↔ Admits path ∧
      disk.Leads (if .root ∈ path.components then [] else disk.start)
        ((path.components.filter (·.isMove)).map (·.text.toList)) place := by
  rw [locate_eq_ok_iff, leads_iff_of_directory directory, Path.steps_eq_filter, startOf]
  simp only [Path.isAbsolute_iff_mem]

private theorem isName_of_leads (tree : disk.IsTree) {segment : List Char} (bare : '/' ∉ segment)
    (leads : disk.Leads place (segs ++ [segment]) last) {content : ByteArray}
    (file : disk.node? last = some (.file content)) : Path.IsName segment := by
  have other : disk.node? last ≠ some .directory := by
    rw [file]
    nofun
  refine ⟨?_, bare, fun dot => other (node?_of_leads_special tree (.inl dot) leads),
    fun dots => other (node?_of_leads_special tree (.inr dots) leads)⟩
  rintro rfl
  obtain ⟨middle, -, idle⟩ := leads_append.mp leads
  obtain ⟨directory, rfl⟩ := (follow_idle (.inl rfl)).mp (leads_singleton.mp idle)
  exact other directory

/-- The path of a file has a parent, which leads to the directory of the file, or is empty if that is
the one where relative paths start. -/
theorem exists_parent (tree : disk.IsTree) (located : disk.locate path = .ok place)
    {content : ByteArray} (file : disk.node? place = some (.file content)) :
    ∃ parent, path.parent? = some parent ∧ disk.node? place.dropLast = some .directory ∧
      if parent.text.toList = [] then place.dropLast = disk.start
      else disk.locate parent = .ok place.dropLast := by
  obtain ⟨admitted, leads⟩ := locate_eq_ok_iff.mp located
  obtain ⟨front, last, ends⟩ :
      ∃ front last, Path.segments path.text.toList = front ++ [last] :=
    ⟨_, _, (List.dropLast_concat_getLast (Path.segments_ne_nil _)).symm⟩
  have bare : '/' ∉ last := by
    have inside : last ∈ Path.segments path.text.toList := by simp [ends]
    exact Path.not_mem_of_mem_segments inside
  rw [ends] at leads
  have own := isName_of_leads tree bare leads file
  obtain ⟨middle, early, followed⟩ := leads_append.mp leads
  rw [leads_singleton, ← String.toList_ofList (l := last)] at followed
  obtain ⟨directory, -, -, rfl⟩ := (follow_name (String.toList_ofList.symm ▸ own)).mp followed
  rw [List.dropLast_concat]
  obtain ⟨parent, found, start, moves⟩ := Path.exists_parent_of_isName ends own
  rw [startOf, ← start, leads_iff_of_directory directory, ← moves] at early
  refine ⟨parent, found, directory, ?_⟩
  split
  · rename_i empty
    have text : parent = ⟨""⟩ := by
      rw [Path.mk.injEq, ← String.toList_inj, empty]
      rfl
    rw [text] at early
    exact (leads_nil.mp early).symm
  · rename_i filled
    simp only [Path.isAbsolute_iff_mem] at early
    refine (locate_iff_of_directory directory).mpr ⟨?_, early⟩
    obtain ⟨more, text⟩ := Path.text_parent?_prefix found
    refine ⟨fun null => admitted.1 (text ▸ List.mem_append_left _ null), filled, ?_⟩
    have size : path.text = parent.text ++ String.ofList more := by
      rw [← String.toList_inj, String.toList_append, String.toList_ofList, text]
    have short := admitted.2.2
    rw [size, String.utf8ByteSize_append] at short
    omega

/-- The segments of a path lead to a place, whether or not the path is one that is looked up. -/
def Goes (disk : Disk) (path : Path) (place : Place) : Prop :=
  disk.Leads (disk.startOf path) (Path.segments path.text.toList) place

theorem Goes.unique {first second : Place} (goes : disk.Goes path first)
    (other : disk.Goes path second) : second = first := by
  rw [Goes, Leads] at goes other
  exact Except.ok.inj (other.symm.trans goes)

private theorem clean_of_leads (tree : disk.IsTree) (leads : disk.Leads place segs last) :
    ∀ segment ∈ segs, '\x00' ∉ segment := by
  induction segs generalizing place with
  | nil => nofun
  | cons segment segs ih =>
    obtain ⟨next, followed, leads⟩ := leads_cons.mp leads
    refine List.forall_mem_cons.mpr ⟨?_, ih leads⟩
    rw [follow, node?_of_follow followed] at followed
    dsimp only at followed
    split at followed
    · rename_i idle
      rcases idle with rfl | rfl <;> decide
    split at followed
    · rename_i parent
      subst parent
      decide
    split at followed
    · cases followed
    split at followed
    · rename_i there
      have listed := (isSome_node?_iff (List.append_ne_nil_of_right_ne_nil _ (by simp))).mp there
      obtain ⟨node, member, whole⟩ := List.mem_map.mp listed
      have named : disk.Names (String.ofList segment) := ⟨node, member, by simp [whole]⟩
      simpa using (tree.legal _ named).1
    · cases followed

/-- A path that leads to a file is looked up, unless it is too long. -/
theorem Goes.locate_cases (tree : disk.IsTree) (goes : disk.Goes path place) {content : ByteArray}
    (held : disk.node? place = some (.file content)) :
    disk.locate path = .ok place ∨ disk.locate path = .error .nameTooLong := by
  have filled : path.text.toList ≠ [] := by
    intro none
    rw [Goes, none] at goes
    obtain ⟨directory, here⟩ := (follow_idle (.inl rfl)).mp (leads_singleton.mp goes)
    rw [← here, directory] at held
    cases held
  have clean : '\x00' ∉ path.text.toList := by
    rw [← Path.intercalate_segments path.text.toList]
    intro null
    obtain ⟨first, rest, segs⟩ := List.exists_cons_of_ne_nil (Path.segments_ne_nil path.text.toList)
    have apart := clean_of_leads tree goes
    rw [segs] at null apart
    rw [Path.intercalate_cons, List.mem_append, List.mem_flatMap] at null
    obtain ⟨own, others⟩ := List.forall_mem_cons.mp apart
    rcases null with inside | ⟨segment, member, inside⟩
    · exact own inside
    · exact others segment member (by simpa using inside)
  by_cases short : path.text.utf8ByteSize < pathLimit
  · exact .inl (locate_eq_ok_iff.mpr ⟨⟨clean, filled, short⟩, goes⟩)
  · have some : path.text ≠ "" := fun none => filled (by rw [none]; rfl)
    refine .inr ?_
    rw [locate, if_neg (by simpa using clean), if_neg some, if_pos (Nat.not_lt.mp short)]

/-- A relative path behind one of a directory leads where it does from there. -/
theorem goes_join_iff (located : disk.locate base = .ok place) (relative : other.isAbsolute = false) :
    disk.Goes (base.join other) last ↔ disk.Leads place (Path.segments other.text.toList) last := by
  obtain ⟨own, leads⟩ := locate_eq_ok_iff.mp located
  have determined {segs : List (List Char)} (there : disk.Leads (disk.startOf base) segs place) :
      (∃ next, disk.Leads (disk.startOf base) segs next ∧
        disk.Leads next (Path.segments other.text.toList) last) ↔
        disk.Leads place (Path.segments other.text.toList) last := by
    constructor
    · rintro ⟨next, first, later⟩
      rw [Leads, there] at first
      rwa [← Except.ok.inj first] at later
    · exact fun later => ⟨place, there, later⟩
  rw [Goes, startOf, Path.isAbsolute_join relative own.2.1, ← startOf]
  rcases Path.join_cases base relative with ⟨empty, -⟩ | ⟨cs, text, joined⟩ | ⟨-, -, joined⟩
  · exact absurd empty own.2.1
  · rw [joined, String.toList_ofList, Path.segments_slash, leads_append]
    rw [text, Path.segments_slash, leads_append] at leads
    obtain ⟨middle, early, idle⟩ := leads
    have same : place = middle := eq_of_leads_idle (by decide) idle
    exact determined (same ▸ early)
  · rw [joined, String.toList_ofList, Path.segments_slash, leads_append]
    exact determined leads

theorem locate_join_iff (located : disk.locate base = .ok place)
    (relative : other.isAbsolute = false) (admitted : Admits (base.join other)) :
    disk.locate (base.join other) = .ok last ↔
      disk.Leads place (Path.segments other.text.toList) last := by
  rw [locate_eq_ok_iff, and_iff_right admitted]
  exact goes_join_iff located relative

end Disk

end PackageSheet
