import PackageSheet.Proofs.Path.Spelling

namespace PackageSheet

/-- A component that is read back from its text, also behind others. -/
structure Component.ReadsBack (c : Component) : Prop where
  bare : '/' ∉ c.text.toList
  steps : Path.steps [c.text.toList] = [c]

namespace Path

variable {path base : Path} {segs : List (List Char)} {c : Component} {cs : List Component}

private theorem readsBack_of_mem_steps (bare : ∀ s ∈ segs, '/' ∉ s) (member : c ∈ steps segs) :
    c.ReadsBack := by
  obtain ⟨segment, kept, rfl⟩ := List.mem_map.mp member
  obtain ⟨known, counts⟩ := List.mem_filter.mp kept
  constructor
  · rw [text_step]
    exact bare segment known
  · rw [text_step, steps_cons_of_isStep counts, steps_nil]

/-- The anchor of a path can only come first. -/
theorem readsBack_of_mem_tail (member : c ∈ path.components.tail) : c.ReadsBack := by
  have step : c ∈ steps (segments path.text.toList) := by
    rw [components_eq] at member
    cases anchored : path.anchor with
    | none =>
      rw [anchored] at member
      exact List.mem_of_mem_tail member
    | some anchor =>
      rw [anchored] at member
      exact member
  exact readsBack_of_mem_steps (fun _ => not_mem_of_mem_segments) step

private theorem components_text (member : c ∈ path.components) : (Path.mk c.text).components = [c] := by
  cases c with
  | root | current | parent => decide
  | name name => exact components_name (isName_of_mem_components member)

private theorem components_foldl_join (filled : base.text.toList ≠ []) (back : ∀ c ∈ cs, c.ReadsBack) :
    (cs.foldl (fun path c => path.join ⟨c.text⟩) base).components = base.components ++ cs := by
  induction cs generalizing base with
  | nil => simp
  | cons c cs ih =>
    obtain ⟨own, others⟩ := List.forall_mem_cons.mp back
    obtain ⟨more, longer⟩ := exists_text_join base own.bare
    have still : (base.join ⟨c.text⟩).text.toList ≠ [] := by simp [longer, filled]
    rw [List.foldl_cons, ih still others, components_join_bare own.bare filled, own.steps,
      List.append_assoc, List.singleton_append]

/-- What is put together from the first components of a path has these for components. -/
theorem components_ofComponents_of_prefix (front : cs <+: path.components) :
    (ofComponents cs).components = cs := by
  cases cs with
  | nil => decide
  | cons c cs =>
    have own := components_text (front.subset List.mem_cons_self)
    have filled : (Path.mk c.text).text.toList ≠ [] := by
      intro empty
      have text : c.text = "" := String.toList_inj.mp empty
      rw [text, components_empty] at own
      cases own
    have back : ∀ d ∈ cs, d.ReadsBack := by
      obtain ⟨more, whole⟩ := front
      intro d member
      have later : d ∈ path.components.tail := by
        rw [← whole]
        exact List.mem_append_left more member
      exact readsBack_of_mem_tail later
    have first : (Path.mk "").join ⟨c.text⟩ = ⟨c.text⟩ := by
      unfold join
      split <;> rfl
    rw [ofComponents, List.foldl_cons, first, components_foldl_join filled back, own,
      List.singleton_append]

end Path

end PackageSheet
