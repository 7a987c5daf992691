import Mathlib.Data.List.Induction
import Mathlib.Data.String.Basic
import PackageSheet.Settings.Load

namespace PackageSheet

namespace Bindings

/-- The names come in order, each once. -/
def Ordered (bindings : Bindings) : Prop :=
  bindings.Pairwise fun first second => first.1 < second.1

variable {bindings : Bindings} {name value : String}

theorem get?_append (bindings others : Bindings) (name : String) :
    get? (bindings ++ others) name = (get? bindings name).or (get? others name) := by
  simp only [get?, List.find?_append]
  cases bindings.find? (·.1 == name) <;> rfl

theorem get?_singleton (name value other : String) :
    get? [(name, value)] other = if name = other then some value else none := by
  by_cases same : name = other <;> simp [get?, same]

/-- After some names were bound one after another, a name has the value that it was given last, or
else the value that it had before. -/
theorem get?_setAll (bindings : Bindings) (pairs : List (String × String)) (name : String) :
    (bindings.setAll pairs).get? name = (get? pairs.reverse name).or (bindings.get? name) := by
  induction pairs generalizing bindings with
  | nil => rfl
  | cons pair pairs ih =>
    obtain ⟨other, value⟩ := pair
    have next : bindings.setAll ((other, value) :: pairs) =
        (bindings.set other value).setAll pairs := rfl
    rw [next, ih, get?_set, List.reverse_cons, get?_append, get?_singleton, Option.or_assoc]
    by_cases same : other = name <;> simp [same]

private theorem mem_set {pair : String × String} (member : pair ∈ bindings.set name value) :
    pair = (name, value) ∨ pair ∈ bindings := by
  fun_induction set name value bindings with
  | case1 => exact .inl (List.mem_singleton.mp member)
  | case2 old bindings =>
    exact (List.mem_cons.mp member).imp_right (List.mem_cons_of_mem _)
  | case3 first old bindings ne lt => exact List.mem_cons.mp member
  | case4 first old bindings ne _ ih =>
    rcases List.mem_cons.mp member with rfl | later
    · exact .inr List.mem_cons_self
    · exact (ih later).imp_right (List.mem_cons_of_mem _)

theorem Ordered.set (ordered : bindings.Ordered) (name value : String) :
    Ordered (bindings.set name value) := by
  fun_induction Bindings.set name value bindings with
  | case1 => exact List.pairwise_singleton _ _
  | case2 old bindings =>
    obtain ⟨first, others⟩ := List.pairwise_cons.mp ordered
    exact List.pairwise_cons.mpr ⟨first, others⟩
  | case3 first old bindings ne lt =>
    obtain ⟨before, others⟩ := List.pairwise_cons.mp ordered
    refine List.pairwise_cons.mpr ⟨?_, ordered⟩
    intro pair member
    rcases List.mem_cons.mp member with rfl | later
    · exact lt
    · exact lt_trans lt (before pair later)
  | case4 first old bindings ne above ih =>
    obtain ⟨before, others⟩ := List.pairwise_cons.mp ordered
    refine List.pairwise_cons.mpr ⟨?_, ih others⟩
    intro pair member
    rcases mem_set member with rfl | later
    · exact lt_of_le_of_ne (not_lt.mp above) (Ne.symm ne)
    · exact before pair later

theorem Ordered.setAll (ordered : bindings.Ordered) (pairs : List (String × String)) :
    Ordered (bindings.setAll pairs) := by
  induction pairs generalizing bindings with
  | nil => exact ordered
  | cons pair pairs ih => exact ih (ordered.set pair.1 pair.2)

/-- In order, the value of a name is the one that stands beside it. -/
theorem Ordered.get?_eq_some_iff (ordered : bindings.Ordered) :
    bindings.get? name = some value ↔ (name, value) ∈ bindings := by
  induction bindings with
  | nil => simp [get?]
  | cons pair bindings ih =>
    obtain ⟨first, others⟩ := List.pairwise_cons.mp ordered
    obtain ⟨other, old⟩ := pair
    have split : (other, old) :: bindings = [(other, old)] ++ bindings := rfl
    rw [split, get?_append, get?_singleton, List.mem_append, List.mem_singleton, ← ih others]
    by_cases same : other = name
    · subst same
      have absent : get? bindings other ≠ some value := by
        intro found
        exact lt_irrefl other (first (other, value) ((ih others).mp found))
      simp [absent, eq_comm]
    · simp [same, Ne.symm same]

def renamed (rename : String → String) (bindings : Bindings) : Bindings :=
  bindings.map fun (name, value) => (rename name, value)

/-- Where several names become one, the last of them in order decides. -/
theorem Ordered.get?_renamed_iff (ordered : bindings.Ordered) (rename : String → String) :
    get? (renamed rename bindings).reverse name = some value ↔
      ∃ greatest, rename greatest = name ∧ (greatest, value) ∈ bindings ∧
        ∀ other ∈ bindings, rename other.1 = name → other.1 ≤ greatest := by
  induction bindings using List.reverseRecOn with
  | nil => simp [renamed, get?]
  | append_singleton bindings last ih =>
    obtain ⟨others, -, below⟩ := List.pairwise_append.mp ordered
    obtain ⟨final, held⟩ := last
    have below : ∀ pair ∈ bindings, pair.1 < final := fun pair member =>
      below pair member _ (List.mem_singleton_self _)
    have reversed : (renamed rename (bindings ++ [(final, held)])).reverse =
        [(rename final, held)] ++ (renamed rename bindings).reverse := by
      simp [renamed]
    rw [reversed, get?_append, get?_singleton]
    by_cases chosen : rename final = name
    · rw [if_pos chosen, Option.some_or, Option.some_inj]
      constructor
      · rintro rfl
        refine ⟨final, chosen, List.mem_append_right _ (List.mem_singleton_self _), ?_⟩
        intro other member _
        rcases List.mem_append.mp member with early | late
        · exact le_of_lt (below other early)
        · rw [List.mem_singleton.mp late]
      · rintro ⟨greatest, -, member, bound⟩
        have above := bound _ (List.mem_append_right _ (List.mem_singleton_self _)) chosen
        rcases List.mem_append.mp member with early | late
        · exact absurd (below _ early) (not_lt.mpr above)
        · cases List.mem_singleton.mp late
          rfl
    · rw [if_neg chosen, Option.none_or, ih others]
      refine exists_congr fun greatest => and_congr_right fun renames => ?_
      constructor
      · rintro ⟨member, bound⟩
        refine ⟨List.mem_append_left _ member, fun other known same => ?_⟩
        rcases List.mem_append.mp known with early | late
        · exact bound other early same
        · rw [List.mem_singleton.mp late] at same
          exact absurd same chosen
      · rintro ⟨member, bound⟩
        refine ⟨?_, fun other known => bound other (List.mem_append_left _ known)⟩
        rcases List.mem_append.mp member with early | late
        · exact early
        · cases List.mem_singleton.mp late
          exact absurd renames chosen

end Bindings

namespace Settings

namespace Draft

variable {draft next : Draft} {name value : String}

theorem ordered_define? (ordered : draft.defines.Ordered)
    (defined : draft.define? name value = some next) : next.defines.Ordered := by
  unfold define? at defined
  split at defined
  · cases defined
  · cases defined
    exact ordered.set name value

private theorem ordered_defineAll? {entries : List (String × String)} (ordered : draft.defines.Ordered)
    (defined : draft.defineAll? entries = some next) : next.defines.Ordered := by
  induction entries generalizing draft with
  | nil =>
    cases defined
    exact ordered
  | cons entry entries ih =>
    obtain ⟨between, first, later⟩ := Option.bind_eq_some_iff.mp defined
    exact ih (ordered_define? ordered first) later

private theorem ordered_follow? {line : Line} (ordered : draft.defines.Ordered)
    (followed : draft.follow? line = some next) : next.defines.Ordered := by
  unfold follow? at followed
  split at followed
  · cases followed
    exact ordered
  · split at followed
    · cases followed
      exact ordered
    · cases followed
  · split at followed
    · exact ordered_define? ordered followed
    · cases followed
    · split at followed
      · cases followed
        exact ordered
      · cases followed
    · exact @ordered_defineAll? { draft with manner := some .braces } _ _ ordered followed
    · exact @ordered_define? { draft with manner := some .dots } _ _ _ ordered followed
    · exact ordered_define? ordered followed
    · cases followed

private theorem ordered_foldlM {lines : List Line} (ordered : draft.defines.Ordered)
    (followed : lines.foldlM Draft.follow? draft = some next) : next.defines.Ordered := by
  induction lines generalizing draft with
  | nil =>
    cases followed
    exact ordered
  | cons line lines ih =>
    obtain ⟨between, first, later⟩ := Option.bind_eq_some_iff.mp followed
    exact ih (ordered_follow? ordered first) later

end Draft

theorem ordered_ofText? {text : String} {settings : Settings}
    (read : ofText? text = some settings) : settings.defines.Ordered := by
  obtain ⟨atoms, -, read⟩ := Option.bind_eq_some_iff.mp read
  obtain ⟨lines, -, read⟩ := Option.bind_eq_some_iff.mp read
  obtain ⟨draft, followed, read⟩ := Option.bind_eq_some_iff.mp read
  cases read
  exact @Draft.ordered_foldlM {} draft lines List.Pairwise.nil followed

/-- Settings that were loaded have their definitions in order. -/
theorem ordered_load {storage : Storage} {path : Path} {settings : Settings}
    (loaded : (load storage path).1 = .ok settings) : settings.defines.Ordered := by
  unfold load at loaded
  split at loaded
  · split at loaded
    · cases loaded
    · split at loaded
      · cases loaded
        exact ordered_ofText? ‹_›
      · cases loaded
  · cases loaded
    exact List.Pairwise.nil

end Settings

end PackageSheet
