import PackageSheet.Proofs.Sheet.Acceptance

namespace PackageSheet

def Location.inFile (file : Option Path) (location : Location) : Location :=
  { location with file }

def Property.inFile (file : Option Path) (property : Property) : Property :=
  { property with location := property.location.inFile file }

/-- The rule with its places in a file. -/
def Rule.inFile (file : Option Path) (rule : Rule) : Rule :=
  { rule with
    properties := rule.properties.map (·.inFile file)
    location := rule.location.inFile file }

def Statement.inFile (file : Option Path) : Statement → Statement
  | .rule found => .rule (found.inFile file)
  | .importFile target location => .importFile target (location.inFile file)

variable (file : Option Path)

namespace Rule

private theorem addToProperties_inFile (name : String) (values : List String) (location : Location)
    (properties : List Property) :
    addToProperties name values (location.inFile file) (properties.map (·.inFile file)) =
      (addToProperties name values location properties).map (·.inFile file) := by
  induction properties with
  | nil => rfl
  | cons property properties ih =>
    rw [List.map_cons, addToProperties, addToProperties, ih]
    by_cases same : (property.name == name) = true
    · rw [if_pos same, if_pos (by exact same)]
      rfl
    · rw [if_neg same, if_neg (by exact same)]
      rfl

private theorem declare_inFile (rule : Rule) (name : String) (values : List String)
    (location : Location) :
    (rule.inFile file).declare name values (location.inFile file) =
      (rule.declare name values location).inFile file := by
  rw [declare, declare, inFile, addToProperties_inFile]
  rfl

end Rule

/-- An outcome that is the same but for the places in what is read. -/
structure Outcome.Moved {α : Type} (move : α → α) (outcome copy : Outcome α) : Prop where
  result : copy.result = move outcome.result
  rest : copy.rest = outcome.rest

namespace Reading

def inFile (file : Option Path) (reading : Reading) : Reading :=
  { reading with file }

variable (reading : Reading)

private theorem values_inFile (tokens : List Token) :
    (reading.inFile file).values tokens = reading.values tokens := by
  have value (tokens : List Token) : (reading.inFile file).value tokens = reading.value tokens := rfl
  fun_induction values reading tokens with
  | case1 tokens first found comma ih =>
    rw [values, value, dif_pos comma, ih]
    rfl
  | case2 tokens first found other =>
    rw [values, value, dif_neg other]
    rfl

private theorem moved_property (rule : PackageSheet.Rule) (name : Token) (tokens : List Token) :
    Outcome.Moved (·.inFile file) (reading.property rule name tokens)
      ((reading.inFile file).property (rule.inFile file) name tokens) := by
  unfold property
  split
  · exact ⟨rfl, rfl⟩
  · dsimp only
    have declared (values : List String) :=
      rule.declare_inFile file name.text values (reading.locate name)
    rw [values_inFile]
    split
    · exact ⟨declared _, rfl⟩
    · split
      · exact ⟨declared _, rfl⟩
      · exact ⟨declared _, rfl⟩

private theorem moved_body (rule : PackageSheet.Rule) (tokens : List Token) :
    Outcome.Moved (·.inFile file) (reading.body rule tokens)
      ((reading.inFile file).body (rule.inFile file) tokens) := by
  fun_induction body reading rule tokens with
  | case1 =>
    rw [body]
    exact ⟨rfl, rfl⟩
  | case2 rule t ts kind =>
    rw [body, kind]
    exact ⟨rfl, rfl⟩
  | case3 rule t ts kind ih =>
    rw [body, kind]
    exact ih
  | case4 rule t ts kind found ih =>
    obtain ⟨result, rest⟩ := reading.moved_property file rule t ts
    rw [body, kind]
    dsimp only
    rw [result, rest]
    exact ⟨ih.result, ih.rest⟩
  | case5 rule t ts close semicolon identifier ih =>
    rw [body]
    split
    · contradiction
    · contradiction
    · contradiction
    · exact ⟨ih.result, ih.rest⟩

private theorem moved_selectorParts (rule : PackageSheet.Rule) (tokens : List Token) :
    Outcome.Moved (Option.map (·.inFile file)) (selectorParts reading rule tokens)
      (selectorParts (reading.inFile file) (rule.inFile file) tokens) := by
  fun_induction selectorParts reading rule tokens with
  | case1 => exact ⟨rfl, rfl⟩
  | case2 rule t kind n ns identifier ih | case5 rule t kind n ns identifier ih =>
    rw [selectorParts.eq_def (reading.inFile file)]
    dsimp only
    rw [kind]
    dsimp only
    rw [if_pos identifier]
    exact ih
  | case3 rule t kind n ns other | case6 rule t kind n ns other =>
    rw [selectorParts.eq_def (reading.inFile file)]
    dsimp only
    rw [kind]
    dsimp only
    rw [if_neg other]
    exact ⟨rfl, rfl⟩
  | case4 rule t kind | case7 rule t kind | case8 rule t ts kind =>
    rw [selectorParts.eq_def (reading.inFile file)]
    dsimp only
    rw [kind]
    exact ⟨rfl, rfl⟩
  | case9 rule t ts parameter _ _ _ ih =>
    rw [selectorParts.eq_def (reading.inFile file)]
    dsimp only
    split
    · contradiction
    · contradiction
    · contradiction
    · rw [if_pos (by exact parameter)]
      exact ih
  | case10 rule t ts other _ _ _ =>
    rw [selectorParts.eq_def (reading.inFile file)]
    dsimp only
    split
    · contradiction
    · contradiction
    · contradiction
    · rw [if_neg (by exact other)]
      exact ⟨rfl, rfl⟩

private theorem moved_selector (start : Token) (tokens : List Token) :
    Outcome.Moved (Option.map (·.inFile file)) (reading.selector start tokens)
      ((reading.inFile file).selector start tokens) := by
  unfold selector
  dsimp only
  split
  · exact reading.moved_selectorParts file _ _
  · exact reading.moved_selectorParts file _ _

private theorem moved_rule (start : Token) (tokens : List Token) :
    Outcome.Moved (Option.map (·.inFile file)) (reading.rule start tokens)
      ((reading.inFile file).rule start tokens) := by
  obtain ⟨result, rest⟩ := reading.moved_selector file start tokens
  unfold Reading.rule
  dsimp only
  rw [result, rest]
  cases selected : (reading.selector start tokens).result with
  | none =>
    rw [selected] at result
    exact ⟨result.trans (congrArg (Option.map (·.inFile file)) selected.symm), rest⟩
  | some rule =>
    obtain ⟨body, left⟩ := reading.moved_body file rule (reading.selector start tokens).rest
    exact ⟨congrArg some body, left⟩

private theorem moved_directive (start : Token) (tokens : List Token) :
    Outcome.Moved (Option.map (·.inFile file)) (reading.directive start tokens)
      ((reading.inFile file).directive start tokens) := by
  have value : (reading.inFile file).value tokens = reading.value tokens := rfl
  have ending (tokens : List Token) :
      ((reading.inFile file).importEnd tokens).rest = (reading.importEnd tokens).rest := by
    unfold importEnd
    split <;> rfl
  unfold directive
  dsimp only
  split
  · exact ⟨rfl, rfl⟩
  · rw [value]
    split
    · exact ⟨rfl, ending _⟩
    · exact ⟨rfl, ending _⟩

private theorem moved_statements (tokens : List Token) :
    ((reading.inFile file).statements tokens).result =
      (reading.statements tokens).result.map (·.inFile file) := by
  fun_induction statements reading tokens with
  | case1 =>
    rw [statements]
    rfl
  | case2 t ts kind ih =>
    rw [statements, kind]
    exact ih
  | case3 t ts kind found ih =>
    obtain ⟨result, rest⟩ := reading.moved_directive file t ts
    rw [statements, kind]
    dsimp only [Outcome.after, Outcome.map]
    rw [result, rest, ih, List.map_append]
    cases found.result <;> rfl
  | case4 t ts _ _ found ih =>
    obtain ⟨result, rest⟩ := reading.moved_rule file t ts
    rw [statements]
    split
    · contradiction
    · contradiction
    · dsimp only [Outcome.after, Outcome.map]
      rw [result, rest, ih, List.map_append]
      cases (reading.rule t ts).result <;> rfl

end Reading

/-- The statements of a text in one file are those in another, placed in the first. -/
theorem Statement.ofText_inFile (other : Option Path) (text : String) :
    (Statement.ofText text file).1 = (Statement.ofText text other).1.map (·.inFile file) := by
  unfold Statement.ofText
  exact Reading.moved_statements file ⟨text.toList, other, _⟩ _

end PackageSheet
