namespace PackageSheet

/-- Values by name, in the order of the names. -/
abbrev Bindings := List (String × String)

namespace Bindings

def get? (bindings : Bindings) (name : String) : Option String :=
  (bindings.find? (·.1 == name)).map (·.2)

/-- Bind a name to a value; a name that is bound gets the new value. -/
def set (name value : String) : Bindings → Bindings
  | [] => [(name, value)]
  | (other, old) :: bindings =>
    if name = other then (name, value) :: bindings
    else if name < other then (name, value) :: (other, old) :: bindings
    else (other, old) :: set name value bindings

def setAll (bindings : Bindings) (pairs : List (String × String)) : Bindings :=
  pairs.foldl (fun bound (name, value) => set name value bound) bindings

/-- A name has the value that was bound to it last. -/
theorem get?_set (bindings : Bindings) (name value other : String) :
    get? (set name value bindings) other =
      if name = other then some value else get? bindings other := by
  fun_induction set name value bindings with
  | case1 => by_cases h : name = other <;> simp [get?, h]
  | case2 old bindings => by_cases h : name = other <;> simp [get?, h]
  | case3 first old bindings ne lt => by_cases h : name = other <;> simp [get?, h]
  | case4 first old bindings ne _ ih =>
    by_cases h : first = other
    · subst h
      simp [get?, ne]
    · simpa [get?, List.find?_cons, beq_false_of_ne h] using ih

end Bindings

/-- A source of values that is asked by name and has finitely many answers. -/
structure Answers where
  get? : String → Option String
  values : List String
  mem_values : ∀ name value, get? name = some value → value ∈ values

namespace Answers

def none : Answers :=
  ⟨fun _ => .none, [], fun _ _ h => nomatch h⟩

/-- The source that answers with bound values. -/
def ofBindings (bindings : Bindings) : Answers where
  get? := bindings.get?
  values := bindings.map (·.2)
  mem_values name value h := by
    obtain ⟨pair, found, rfl⟩ := Option.map_eq_some_iff.mp h
    exact List.mem_map.mpr ⟨pair, List.mem_of_find?_eq_some found, rfl⟩

end Answers

end PackageSheet
