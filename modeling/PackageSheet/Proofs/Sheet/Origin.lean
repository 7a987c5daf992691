import PackageSheet.Proofs.Sheet.Acceptance

namespace PackageSheet

def Statement.location : Statement → Location
  | .rule found => found.location
  | .importFile _ location => location

namespace Reading

variable {reading : Reading} {declared found : PackageSheet.Rule} {start name : Token}
  {tokens : List Token}

private theorem location_selectorParts
    (read : (selectorParts reading declared tokens).result = some found) :
    found.location = declared.location := by
  fun_induction selectorParts reading declared tokens with
  | case2 _ _ _ _ _ _ ih | case5 _ _ _ _ _ _ ih => exact ih read
  | case9 _ _ _ _ _ _ _ ih => exact ih read
  | case8 => exact congrArg PackageSheet.Rule.location (Option.some.inj read).symm
  | _ => cases read

private theorem location_selector (read : (reading.selector start tokens).result = some found) :
    found.location = reading.locate start := by
  unfold selector at read
  dsimp only at read
  split at read
  · exact location_selectorParts read
  · exact location_selectorParts read

private theorem location_property :
    (reading.property declared name tokens).result.location = declared.location := by
  unfold property
  split
  · rfl
  · dsimp only
    split
    · rfl
    · split <;> rfl

private theorem location_body : (body reading declared tokens).result.location = declared.location := by
  fun_induction body reading declared tokens with
  | case1 => rfl
  | case2 => rfl
  | case3 declared t ts kind ih => exact ih
  | case4 declared t ts kind found ih => exact ih.trans location_property
  | case5 declared t ts _ _ _ ih => exact ih

private theorem location_rule (read : (reading.rule start tokens).result = some found) :
    found.location = reading.locate start := by
  unfold Reading.rule at read
  dsimp only at read
  split at read
  · rename_i none
    rw [none] at read
    cases read
  · rename_i declared selected
    rw [← Option.some.inj read]
    exact location_body.trans (location_selector selected)

private theorem location_directive {statement : Statement}
    (read : (reading.directive start tokens).result = some statement) :
    statement.location = reading.locate start := by
  unfold directive at read
  dsimp only at read
  split at read
  · cases read
  split at read
  · cases read
  · exact congrArg Statement.location (Option.some.inj read).symm

theorem location_statements :
    ∀ statement ∈ (statements reading tokens).result,
      ∃ token, statement.location = reading.locate token := by
  fun_induction statements reading tokens with
  | case1 => exact List.forall_mem_nil _
  | case2 t ts kind ih => exact ih
  | case3 t ts kind found ih =>
    intro statement member
    rcases List.mem_append.mp member with first | later
    · exact ⟨t, location_directive (Option.mem_toList.mp first)⟩
    · exact ih statement later
  | case4 t ts _ _ found ih =>
    intro statement member
    rcases List.mem_append.mp member with first | later
    · obtain ⟨rule, read, rfl⟩ := Option.map_eq_some_iff.mp (Option.mem_toList.mp first)
      exact ⟨t, location_rule read⟩
    · exact ih statement later

end Reading

/-- The statements of a text lie in its file. -/
theorem Statement.file_of_mem_ofText {text : String} {file : Option Path} {statement : Statement}
    (member : statement ∈ (Statement.ofText text file).1) : statement.location.file = file := by
  obtain ⟨token, placed⟩ := Reading.location_statements statement member
  exact congrArg Location.file placed

end PackageSheet
