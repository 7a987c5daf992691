import PackageSheet.Sheet.Statement

namespace PackageSheet

/-- A sheet: rules in the order in which they apply, and the files they came from in the order
of their loading. -/
structure Sheet where
  rules : List Rule := []
  sources : List Path := []

namespace Sheet

def push (sheet : Sheet) (rule : Rule) : Sheet :=
  { sheet with rules := sheet.rules ++ [rule] }

/-- A sheet from a text in memory, and the problems of the text. Such a text has no directory
that imports could start from, so none is followed. -/
def ofText (text : String) : Sheet × List Diagnostic :=
  let (statements, problems) := Statement.ofText text none
  let rules := statements.filterMap fun
    | .rule rule => some rule
    | .importFile .. => none
  let refused := statements.filterMap fun
    | .rule _ => none
    | .importFile target location =>
      some ((Problem.importInMemory target).diagnosedAt location)
  ({ rules }, problems ++ refused)

def indicesWhere (sheet : Sheet) (p : Rule → Bool) : List Nat :=
  (sheet.rules.zipIdx.filter (p ·.1)).map (·.2)

def select (sheet : Sheet) (name : String) (parameter : Option String) : List Nat :=
  sheet.indicesWhere (·.isSelector name parameter)

def selectNamed (sheet : Sheet) (name : String) : List Nat :=
  sheet.indicesWhere (·.name == name)

def named (sheet : Sheet) (name : String) : Cascade :=
  sheet.rules.filter (·.name == name)

def selected (sheet : Sheet) (name : String) (parameter : Option String) : Cascade :=
  sheet.rules.filter (·.isSelector name parameter)

/-- The cascade of the rules that define values. -/
def defines (sheet : Sheet) : Cascade :=
  sheet.rules.filter (·.isDefine)

/-- The elements of a list that are not among some others, each once and at its first
place. -/
def distinct (seen : List String) : List String → List String
  | [] => []
  | x :: xs => if x ∈ seen then distinct seen xs else x :: distinct (x :: seen) xs

/-- The parameters of the rules with a name, each once and in the order of the sheet. -/
def parameters (sheet : Sheet) (name : String) : List String :=
  distinct [] ((sheet.named name).map Rule.key)

theorem mem_distinct {seen xs : List String} {x : String} :
    x ∈ distinct seen xs ↔ x ∈ xs ∧ x ∉ seen := by
  induction xs generalizing seen with
  | nil => simp [distinct]
  | cons y xs ih =>
    unfold distinct
    split
    · rename_i known
      rw [ih, List.mem_cons, or_and_right]
      refine (or_iff_right ?_).symm
      rintro ⟨rfl, new⟩
      exact new known
    · by_cases same : x = y <;> simp_all

theorem nodup_distinct (seen xs : List String) : (distinct seen xs).Nodup := by
  induction xs generalizing seen with
  | nil => exact .nil
  | cons y xs ih =>
    unfold distinct
    split
    · exact ih seen
    · exact List.nodup_cons.mpr ⟨by simp [mem_distinct], ih (y :: seen)⟩

/-- The parameters of the rules with a name are those for which a rule is selected. -/
theorem mem_parameters {sheet : Sheet} {name parameter : String} :
    parameter ∈ sheet.parameters name ↔ sheet.selected name (some parameter) ≠ [] := by
  simp [parameters, named, selected, mem_distinct, Rule.isSelector, and_assoc]

end Sheet

end PackageSheet
