import PackageSheet.Proofs.Path.Spelling
import PackageSheet.Storage.Walk

/-!
Disks as trees (`Disk.IsTree`), and where paths on them lead. A path leads on segment by segment
(`Disk.Leads`), so a path with one more step leads where that step does from the place of the path
(`locate_join`), and one that ends in `.` or `..` leads to a directory.
-/

namespace PackageSheet

namespace Disk

variable {disk : Disk} {path : Path} {place next last : Place} {segment : List Char}
  {segs others : List (List Char)} {step : String}

def Names (disk : Disk) (name : String) : Prop :=
  ∃ node ∈ disk.nodes, name ∈ node.1

/-- The nodes of a disk are named by names that can be looked up, each is listed once, and each is in
a directory. -/
structure IsTree (disk : Disk) : Prop where
  named : ∀ name, disk.Names name → Path.IsName name.toList
  legal : ∀ name, disk.Names name → '\x00' ∉ name.toList ∧ name.utf8ByteSize ≤ nameLimit
  distinct : (disk.nodes.map (·.1)).Nodup
  inside : ∀ place node, disk.node? place = some node → disk.node? place.dropLast = some .directory

theorem IsTree.of_nodes (distinct : (disk.nodes.map (·.1)).Nodup)
    (nodes : ∀ node ∈ disk.nodes,
      (∀ name ∈ node.1, Path.IsName name.toList ∧ '\x00' ∉ name.toList ∧
        name.utf8ByteSize ≤ nameLimit) ∧
      disk.node? node.1.dropLast = some .directory) : disk.IsTree where
  named := fun name ⟨node, listed, own⟩ => ((nodes node listed).1 name own).1
  legal := fun name ⟨node, listed, own⟩ => ((nodes node listed).1 name own).2
  distinct := distinct
  inside := by
    intro place node known
    by_cases top : place = []
    · rw [top]
      rfl
    · obtain ⟨listed, member, same⟩ := List.mem_map.mp (mem_nodes_of_node? top known)
      exact same ▸ (nodes listed member).2

theorem eq_append_of_isBelow {node : Place × Node}
    (member : node ∈ disk.nodes.filter fun node => place.isPrefixOf node.1 && place != node.1) :
    node.1 = place ++ node.1.drop place.length := by
  obtain ⟨front, -⟩ := (Bool.and_eq_true _ _).mp (List.mem_filter.mp member).2
  obtain ⟨rest, whole⟩ := List.isPrefixOf_iff_prefix.mp front
  rw [← whole, List.drop_left]

theorem isSome_node?_iff (some : place ≠ []) :
    (disk.node? place).isSome = true ↔ place ∈ disk.nodes.map (·.1) := by
  rw [node?, if_neg some, Option.isSome_map, List.find?_isSome]
  simp

/-- What is below a place are the ways from there to the nodes behind it. -/
theorem mem_below_iff {names : Place} :
    names ∈ disk.below place ↔ names ≠ [] ∧ place ++ names ∈ disk.nodes.map (·.1) := by
  constructor
  · intro member
    obtain ⟨node, listed, rfl⟩ := List.mem_map.mp member
    have whole := eq_append_of_isBelow listed
    obtain ⟨inside, other⟩ := List.mem_filter.mp listed
    refine ⟨fun none => ?_, whole ▸ List.mem_map_of_mem inside⟩
    rw [none, List.append_nil] at whole
    simp [← whole] at other
  · rintro ⟨filled, listed⟩
    obtain ⟨node, inside, whole⟩ := List.mem_map.mp listed
    refine List.mem_map.mpr ⟨node, List.mem_filter.mpr ⟨inside, ?_⟩, ?_⟩
    · rw [whole, Bool.and_eq_true, List.isPrefixOf_iff_prefix]
      exact ⟨List.prefix_append _ _, by simpa using filled⟩
    · rw [whole, List.drop_left]

theorem mem_names {name : String} :
    name ∈ disk.names place ↔ (disk.node? (place ++ [name])).isSome = true := by
  have single : name ∈ disk.names place ↔ [name] ∈ disk.below place := by
    unfold names
    rw [List.mem_filterMap]
    constructor
    · rintro ⟨names, below, only⟩
      split at only
      · exact Option.some.inj only ▸ below
      · cases only
    · intro below
      exact ⟨[name], below, rfl⟩
  rw [single, mem_below_iff, isSome_node?_iff (List.append_ne_nil_of_right_ne_nil _ (by simp))]
  simp

private theorem IsTree.nodup_below (tree : disk.IsTree) (place : Place) : (disk.below place).Nodup := by
  have apart : (disk.nodes.filter fun node => place.isPrefixOf node.1 && place != node.1).Pairwise
      fun one other => one.1 ≠ other.1 :=
    (List.pairwise_map.mp tree.distinct).filter _
  refine List.pairwise_map.mpr (apart.imp_of_mem fun one other different same => different ?_)
  rw [eq_append_of_isBelow one, eq_append_of_isBelow other, same]

theorem IsTree.nodup_children (tree : disk.IsTree) (path : Path) : (disk.children path).Nodup := by
  unfold children
  split
  · rename_i place _
    refine List.Pairwise.filterMap _ ?_ (tree.nodup_below place)
    rintro one other different name single name' single' rfl
    split at single
    · split at single'
      · cases single
        cases single'
        exact different rfl
      · cases single'
    · cases single
  · exact List.nodup_nil

/-- Segments lead from one place to another. -/
def Leads (disk : Disk) (place : Place) (segs : List (List Char)) (last : Place) : Prop :=
  segs.foldlM disk.follow place = .ok last

@[simp] theorem leads_nil : disk.Leads place [] last ↔ place = last := by
  simp [Leads, pure, Except.pure]

theorem leads_cons : disk.Leads place (segment :: segs) last ↔
    ∃ next, disk.follow place segment = .ok next ∧ disk.Leads next segs last := by
  rw [Leads, List.foldlM_cons]
  cases followed : disk.follow place segment with
  | error failure => simp [bind, Except.bind]
  | ok next => simp [bind, Except.bind, Leads]

theorem leads_append : disk.Leads place (segs ++ others) last ↔
    ∃ next, disk.Leads place segs next ∧ disk.Leads next others last := by
  induction segs generalizing place with
  | nil => simp
  | cons segment segs ih =>
    simp only [List.cons_append, leads_cons, ih]
    constructor
    · rintro ⟨first, followed, next, early, late⟩
      exact ⟨next, ⟨first, followed, early⟩, late⟩
    · rintro ⟨next, ⟨first, followed, early⟩, late⟩
      exact ⟨first, followed, next, early, late⟩

theorem leads_singleton : disk.Leads place [segment] last ↔ disk.follow place segment = .ok last := by
  simp [leads_cons]

theorem node?_of_follow (followed : disk.follow place segment = .ok next) :
    disk.node? place = some .directory := by
  unfold follow at followed
  split at followed
  · assumption
  · cases followed
  · cases followed

theorem follow_idle (idle : segment = [] ∨ segment = ['.']) :
    disk.follow place segment = .ok next ↔ disk.node? place = some .directory ∧ place = next := by
  constructor
  · intro followed
    refine ⟨node?_of_follow followed, ?_⟩
    rw [follow, node?_of_follow followed] at followed
    dsimp only at followed
    rw [if_pos idle] at followed
    exact Except.ok.inj followed
  · rintro ⟨directory, rfl⟩
    rw [follow, directory]
    dsimp only
    rw [if_pos idle]

/-- A name leads to the node of that name, which must be there and have a name to be looked up. -/
theorem follow_name (own : Path.IsName step.toList) :
    disk.follow place step.toList = .ok next ↔
      disk.node? place = some .directory ∧ step.utf8ByteSize ≤ nameLimit ∧
        (disk.node? (place ++ [step])).isSome = true ∧ next = place ++ [step] := by
  have other : ¬ (step.toList = [] ∨ step.toList = ['.']) :=
    not_or.mpr ⟨own.ne_nil, own.not_current⟩
  constructor
  · intro followed
    have directory := node?_of_follow followed
    rw [follow, directory] at followed
    dsimp only at followed
    rw [if_neg other, if_neg own.not_parent, String.ofList_toList] at followed
    split at followed
    · cases followed
    · rename_i short
      split at followed
      · rename_i there
        exact ⟨directory, Nat.not_lt.mp short, there, (Except.ok.inj followed).symm⟩
      · cases followed
  · rintro ⟨directory, short, there, rfl⟩
    rw [follow, directory]
    dsimp only
    rw [if_neg other, if_neg own.not_parent, String.ofList_toList, if_neg (Nat.not_lt.mpr short),
      if_pos there]

private theorem follow_parent : disk.follow place ['.', '.'] = .ok next ↔
    disk.node? place = some .directory ∧ place.dropLast = next := by
  constructor
  · intro followed
    refine ⟨node?_of_follow followed, ?_⟩
    rw [follow, node?_of_follow followed] at followed
    exact Except.ok.inj followed
  · rintro ⟨directory, rfl⟩
    rw [follow, directory]
    rfl

theorem eq_of_leads_idle (idle : ∀ segment ∈ segs, segment = [] ∨ segment = ['.'])
    (leads : disk.Leads place segs last) : last = place := by
  induction segs generalizing place with
  | nil => exact (leads_nil.mp leads).symm
  | cons segment segs ih =>
    obtain ⟨own, idle⟩ := List.forall_mem_cons.mp idle
    obtain ⟨next, first, leads⟩ := leads_cons.mp leads
    obtain ⟨-, rfl⟩ := (follow_idle own).mp first
    exact ih idle leads

theorem eq_of_leads_names {names : List String} (named : ∀ name ∈ names, Path.IsName name.toList)
    (leads : disk.Leads place (names.map String.toList) last) : last = place ++ names := by
  induction names generalizing place with
  | nil => simpa using (leads_nil.mp leads).symm
  | cons name names ih =>
    obtain ⟨own, named⟩ := List.forall_mem_cons.mp named
    obtain ⟨next, followed, leads⟩ := leads_cons.mp leads
    rw [ih named leads, ((follow_name own).mp followed).2.2.2]
    simp

theorem node?_of_leads_special (tree : disk.IsTree)
    (special : segment = ['.'] ∨ segment = ['.', '.'])
    (leads : disk.Leads place (segs ++ [segment]) last) : disk.node? last = some .directory := by
  obtain ⟨next, -, leads⟩ := leads_append.mp leads
  rw [leads_singleton] at leads
  rcases special with rfl | rfl
  · obtain ⟨directory, rfl⟩ := (follow_idle (.inr rfl)).mp leads
    exact directory
  · obtain ⟨directory, rfl⟩ := follow_parent.mp leads
    exact tree.inside next _ directory

/-- Whether a path is one that a disk looks up at all. -/
def Admits (path : Path) : Prop :=
  '\x00' ∉ path.text.toList ∧ path.text.toList ≠ [] ∧ path.text.utf8ByteSize < pathLimit

instance (path : Path) : Decidable (Admits path) :=
  inferInstanceAs (Decidable (_ ∧ _ ∧ _))

/-- Where a path starts. -/
def startOf (disk : Disk) (path : Path) : Place :=
  if path.isAbsolute then [] else disk.start

theorem locate_eq_ok_iff : disk.locate path = .ok place ↔
    Admits path ∧ disk.Leads (disk.startOf path) (Path.segments path.text.toList) place := by
  have empty : path.text = "" ↔ path.text.toList = [] := by
    rw [← String.toList_inj]
    rfl
  unfold locate
  split
  · rename_i null
    have held : '\x00' ∈ path.text.toList := by simpa using null
    exact iff_of_false nofun fun ⟨admitted, _⟩ => admitted.1 held
  · rename_i clean
    split
    · rename_i none
      exact iff_of_false nofun fun ⟨admitted, _⟩ => admitted.2.1 (empty.mp none)
    · rename_i some
      split
      · rename_i long
        exact iff_of_false nofun fun ⟨admitted, _⟩ => Nat.not_lt.mpr long admitted.2.2
      · rename_i short
        have admitted : Admits path :=
          ⟨by simpa using clean, fun none => some (empty.mpr none), Nat.not_le.mp short⟩
        exact (and_iff_right admitted).symm

theorem isFile_iff : disk.isFile path = true ↔
    ∃ place content, disk.locate path = .ok place ∧ disk.node? place = some (.file content) := by
  unfold isFile nodeAt?
  cases disk.locate path with
  | error failure => simp [Except.toOption]
  | ok place =>
    cases found : disk.node? place with
    | none => simp [Except.toOption, found]
    | some node => cases node <;> simp [Except.toOption, found]

theorem isFile_of_special (tree : disk.IsTree) {front : List (List Char)}
    (special : segment = ['.'] ∨ segment = ['.', '.'])
    (segments : Path.segments path.text.toList = front ++ [segment]) :
    disk.isFile path = false := by
  rw [← Bool.not_eq_true, isFile_iff]
  rintro ⟨place, content, located, held⟩
  have leads := (locate_eq_ok_iff.mp located).2
  rw [segments] at leads
  have directory := node?_of_leads_special tree special leads
  rw [directory] at held
  cases held

/-- A path with one more step leads where that step does from the place of the path. -/
theorem locate_join (bare : '/' ∉ step.toList) (admitted : Admits path)
    (longer : Admits (path.join ⟨step⟩)) :
    disk.locate (path.join ⟨step⟩) = .ok last ↔
      ∃ place, disk.locate path = .ok place ∧ disk.follow place step.toList = .ok last := by
  have start : disk.startOf (path.join ⟨step⟩) = disk.startOf path := by
    rw [startOf, startOf, Path.isAbsolute_join_eq bare]
  simp only [locate_eq_ok_iff, admitted, longer, true_and, start]
  rcases Path.segments_join bare admitted.2.1 with ⟨front, own, joined⟩ | joined
  · simp only [own, joined, leads_append, leads_singleton]
    constructor
    · rintro ⟨place, early, followed⟩
      exact ⟨place, ⟨place, early, (follow_idle (.inl rfl)).mpr ⟨node?_of_follow followed, rfl⟩⟩,
        followed⟩
    · rintro ⟨place, ⟨middle, early, idle⟩, followed⟩
      obtain ⟨-, rfl⟩ := (follow_idle (.inl rfl)).mp idle
      exact ⟨middle, early, followed⟩
  · simp only [joined, leads_append, leads_singleton]

/-- A file is read from a disk if its path leads to a node that holds its text. -/
theorem read_of_file {text : String}
    (leads : disk.locate path = .ok place)
    (held : disk.node? place = some (.file text.toByteArray)) : disk.read path = .ok text := by
  have whole : String.fromUTF8? text.toByteArray = some text := dif_pos text.isValidUTF8
  rw [read, readBytes, leads]
  dsimp only
  rw [held]
  dsimp only
  rw [whole]

end Disk

end PackageSheet
