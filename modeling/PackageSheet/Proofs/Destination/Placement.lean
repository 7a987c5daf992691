import PackageSheet.FileList.Entry
import PackageSheet.Proofs.Destination.Normal
import PackageSheet.Proofs.Path.Below
import PackageSheet.Proofs.Path.Rejoining

namespace PackageSheet.Destination

open PackageSheet.Path

variable {path directory root : Path} {paths : List Path} {first second cs shared : List Component}

/-! ### Relative paths -/

theorem components_strip (path directory : Path) :
    (strip path directory).components =
      if directory.components <+: path.components then
        path.components.drop directory.components.length
      else path.components := by
  unfold strip
  cases found : path.below? directory with
  | none =>
    rw [if_neg (below?_eq_none found)]
    rfl
  | some rest =>
    obtain ⟨below, left⟩ := components_below? found
    rw [if_pos below]
    exact left

theorem components_relative (path root : Path) :
    (relative path root).components = (strip path root).components.filter (·.isName) :=
  components_ofComponents_names _

theorem isNamed_relative (path root : Path) : (relative path root).IsNamed := by
  intro c member
  rw [components_relative] at member
  exact (List.mem_filter.mp member).2

/-- A path keeps its name when it is taken relative to a root, unless it is that root. -/
theorem fileName?_relative {name : String} (named : path.fileName? = some name)
    (apart : path.same root = false) : (relative path root).fileName? = some name := by
  obtain ⟨front, whole⟩ := List.getLast?_eq_some_iff.mp (fileName?_eq_some.mp named)
  have kept (cs : List Component) : (cs ++ [Component.name name]).filter (·.isName) =
      cs.filter (·.isName) ++ [Component.name name] := by
    simp [List.filter_append, Component.isName]
  rw [fileName?_eq_some, components_relative, components_strip]
  split
  · rename_i below
    have shorter : root.components.length ≤ front.length := by
      by_contra longer
      have all : path.components.length ≤ root.components.length := by
        rw [whole, List.length_append, List.length_singleton]
        omega
      have equal := below.eq_of_length (Nat.le_antisymm below.length_le all)
      simp [same, equal] at apart
    rw [whole, List.drop_append_of_le_length shorter, kept, List.getLast?_concat]
  · rw [whole, kept, List.getLast?_concat]

/-! ### Trimming -/

private theorem sharedStart_prefix_left (first second : List Component) :
    sharedStart first second <+: first := by
  fun_induction sharedStart first second with
  | case1 a as bs ih => exact (List.prefix_cons_inj _).mpr ih
  | case2 => exact List.nil_prefix
  | case3 => exact List.nil_prefix

private theorem sharedStart_prefix_right (first second : List Component) :
    sharedStart first second <+: second := by
  fun_induction sharedStart first second with
  | case1 a as bs ih => exact (List.prefix_cons_inj _).mpr ih
  | case2 => exact List.nil_prefix
  | case3 => exact List.nil_prefix

private theorem prefix_sharedStart_iff :
    cs <+: sharedStart first second ↔ cs <+: first ∧ cs <+: second := by
  constructor
  · intro front
    exact ⟨front.trans (sharedStart_prefix_left _ _), front.trans (sharedStart_prefix_right _ _)⟩
  · rintro ⟨left, right⟩
    induction cs generalizing first second with
    | nil => exact List.nil_prefix
    | cons c cs ih =>
      obtain ⟨more, rfl⟩ := left
      obtain ⟨others, rfl⟩ := right
      have both := ih (List.prefix_append cs more) (List.prefix_append cs others)
      rw [List.cons_append, List.cons_append, sharedStart, if_pos rfl]
      exact (List.prefix_cons_inj c).mpr both

private theorem prefix_foldl_sharedStart_iff :
    cs <+: paths.foldl (fun shared other => sharedStart shared (directorySteps other)) shared ↔
      cs <+: shared ∧ ∀ path ∈ paths, cs <+: directorySteps path := by
  induction paths generalizing shared with
  | nil => simp
  | cons path paths ih =>
    rw [List.foldl_cons, ih, prefix_sharedStart_iff, List.forall_mem_cons, and_assoc]

/-- The components of the directory of a path begin its own, and are fewer, if there are any. -/
theorem directorySteps_isPrefix (path : Path) : directorySteps path <+: path.components.dropLast := by
  unfold directorySteps
  cases found : path.parent? with
  | some directory => exact components_parent? found ▸ List.prefix_refl _
  | none => exact List.nil_prefix

/-- The components of the shared directory are the longest list that begins those of each directory. -/
theorem prefix_sharedDirectory_iff (some : paths ≠ []) :
    cs <+: (sharedDirectory paths).components ↔ ∀ path ∈ paths, cs <+: directorySteps path := by
  cases paths with
  | nil => exact absurd rfl some
  | cons path paths =>
    let shared := paths.foldl (fun shared other => sharedStart shared (directorySteps other))
      (directorySteps path)
    have front : shared <+: directorySteps path :=
      (prefix_foldl_sharedStart_iff.mp (List.prefix_refl shared)).1
    have inside : shared <+: path.components :=
      front.trans ((directorySteps_isPrefix path).trans (List.dropLast_prefix _))
    have components : (sharedDirectory (path :: paths)).components = shared :=
      components_ofComponents_of_prefix inside
    rw [components, prefix_foldl_sharedStart_iff, List.forall_mem_cons]

/-- The shared directory begins each path, without its last component. -/
theorem components_sharedDirectory (member : path ∈ paths) :
    (sharedDirectory paths).components <+: path.components.dropLast :=
  ((prefix_sharedDirectory_iff (List.ne_nil_of_mem member)).mp (List.prefix_refl _) path member).trans
    (directorySteps_isPrefix path)

/-- Every path is the shared directory and what is left below it. -/
theorem components_sharedDirectory_append (member : path ∈ paths) :
    (sharedDirectory paths).components ++ (strip path (sharedDirectory paths)).components =
      path.components := by
  have front := (components_sharedDirectory member).trans (List.dropLast_prefix _)
  rw [components_strip, if_pos front]
  exact List.prefix_iff_eq_append.mp front

private theorem fileName?_strip_sharedDirectory (member : path ∈ paths) :
    (strip path (sharedDirectory paths)).fileName? = path.fileName? := by
  have whole := components_sharedDirectory_append member
  have short := (components_sharedDirectory member).length_le
  rw [fileName?, fileName?, ← whole]
  cases left : (strip path (sharedDirectory paths)).components with
  | nil =>
    rw [left, List.append_nil] at whole
    rw [List.length_dropLast, ← whole] at short
    have none : (sharedDirectory paths).components = [] := List.length_eq_zero_iff.mp (by omega)
    rw [none, List.append_nil]
  | cons c cs => rw [List.getLast?_append_of_ne_nil _ (List.cons_ne_nil c cs)]

private theorem components_nameOnly (path : Path) :
    (nameOnly path).components = (path.fileName?.map Component.name).toList := by
  unfold nameOnly
  cases found : path.fileName? with
  | none => decide
  | some name =>
    have member : .name name ∈ path.components :=
      List.mem_of_getLast? (fileName?_eq_some.mp found)
    exact components_name (isName_of_mem_components member)

/-- Trimming changes each path by itself. What has only names for components still does, and keeps
its own name. -/
theorem exists_trim (policy : TrimPolicy) (paths : List Path) :
    ∃ change : Path → Path, trim policy paths = paths.map change ∧
      ((∀ path ∈ paths, path.IsNamed) → ∀ path ∈ paths,
        (change path).IsNamed ∧ (change path).fileName? = path.fileName?) := by
  cases policy with
  | keep => exact ⟨id, (List.map_id _).symm, fun named path member => ⟨named path member, rfl⟩⟩
  | nameOnly =>
    refine ⟨nameOnly, rfl, fun named path member => ?_⟩
    have single := components_nameOnly path
    cases found : path.fileName? with
    | none =>
      rw [found] at single
      refine ⟨fun c inside => ?_, ?_⟩
      · rw [single] at inside
        cases inside
      · rw [fileName?, single]
        rfl
    | some name =>
      rw [found] at single
      refine ⟨fun c inside => ?_, ?_⟩
      · rw [single] at inside
        rw [List.mem_singleton.mp inside]
        rfl
      · rw [fileName?_eq_some, single]
        rfl
  | minimal =>
    refine ⟨(strip · (sharedDirectory paths)), rfl, fun named path member => ?_⟩
    refine ⟨fun c inside => ?_, fileName?_strip_sharedDirectory member⟩
    refine named path member c ?_
    rw [← components_sharedDirectory_append member]
    exact List.mem_append_right _ inside

/-! ### Placing -/

private theorem isNamed_normalize (raw : String) : (Path.mk (normalize raw)).IsNamed := by
  have named := (isNormal_normalize raw).isNamed
  rwa [String.ofList_toList] at named

/-- A placed path has the components of the prefix in front of its own. -/
theorem components_place (raw : String) (named : path.IsNamed) :
    (place raw path).components = (Path.mk (normalize raw)).components ++ path.components := by
  unfold place
  dsimp only
  split
  · rename_i empty
    rw [empty, components_empty, List.nil_append]
  · exact components_join named.anchor

theorem isNamed_place (raw : String) (named : path.IsNamed) : (place raw path).IsNamed := by
  intro c member
  rw [components_place raw named] at member
  rcases List.mem_append.mp member with above | own
  · exact isNamed_normalize raw c above
  · exact named c own

theorem fileName?_place (raw : String) (named : path.IsNamed) {name : String}
    (last : path.fileName? = some name) : (place raw path).fileName? = some name := by
  rw [fileName?_eq_some] at last ⊢
  rw [components_place raw named, List.getLast?_append, last]
  rfl

end PackageSheet.Destination
