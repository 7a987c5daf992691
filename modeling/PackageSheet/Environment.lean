import PackageSheet.Bindings
import PackageSheet.Text.Fragment

/-!
The environment of the program as a source of values. A variable is kept as its name, an equals
sign and its value, and is found by any text in front of an equals sign.
-/

namespace PackageSheet.Environment

/-- What follows an opening and an equals sign at the start of a text. -/
def after? : List Char → List Char → Option (List Char)
  | [], '=' :: text => some text
  | c :: opening, d :: text => if c = d then after? opening text else none
  | _, _ => none

private theorem isSuffix_of_after {opening text rest : List Char} (h : after? opening text = some rest) :
    rest <:+ text := by
  fun_induction after? opening text with
  | case1 text => cases h; exact List.suffix_cons ..
  | case2 c opening text ih => exact (ih h).trans (List.suffix_cons ..)
  | case3 => cases h
  | case4 => cases h

/-- A variable as it is kept. -/
def kept (pair : String × String) : List Char :=
  pair.1.toList ++ '=' :: pair.2.toList

/-- The answers of some variables. -/
def ofVariables (pairs : List (String × String)) : Answers where
  get? name := pairs.findSome? fun v => (after? name.toList (kept v)).map String.ofList
  values := pairs.flatMap fun v => (Text.fragments (kept v)).map String.ofList
  mem_values name value h := by
    obtain ⟨v, mem, found⟩ := List.exists_of_findSome?_eq_some h
    obtain ⟨rest, after, rfl⟩ := Option.map_eq_some_iff.mp found
    have part := Text.mem_fragments.mpr (isSuffix_of_after after).isInfix
    exact List.mem_flatMap.mpr ⟨v, mem, List.mem_map.mpr ⟨rest, part, rfl⟩⟩

end PackageSheet.Environment
