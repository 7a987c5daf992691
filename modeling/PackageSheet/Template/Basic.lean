import PackageSheet.Text.Blank

namespace PackageSheet.Template

/-- A part of a text: a character, or a reference with what is written between its braces. -/
inductive Part where
  | char (c : Char)
  | reference (body : List Char)
deriving DecidableEq

def Part.text : Part → List Char
  | .char c => [c]
  | .reference body => '$' :: '\x7b' :: body ++ ['\x7d']

def Part.body? : Part → Option (List Char)
  | .char _ => none
  | .reference body => some body

/-- The characters before the first closing brace, and those after it. -/
def close? (cs : List Char) : Option (List Char × List Char) :=
  match cs.dropWhile (· != '\x7d') with
  | _ :: rest => some (cs.takeWhile (· != '\x7d'), rest)
  | [] => none

theorem append_of_close? {cs body rest : List Char} (h : close? cs = some (body, rest)) :
    body ++ '\x7d' :: rest = cs := by
  unfold close? at h
  split at h
  · rename_i c after found
    have brace : c = '\x7d' := by
      have := List.head?_dropWhile_not (fun c => c != '\x7d') cs
      simp_all
    cases h
    subst brace
    rw [← found]
    exact List.takeWhile_append_dropWhile
  · cases h

/-- The parts of a text. An opening that is never closed is no reference. -/
def parts : List Char → List Part
  | [] => []
  | '$' :: '\x7b' :: cs =>
    match _h : close? cs with
    | some (body, rest) => .reference body :: parts rest
    | none => .char '$' :: parts ('\x7b' :: cs)
  | c :: cs => .char c :: parts cs
termination_by cs => cs.length
decreasing_by
  · have := congrArg List.length (append_of_close? _h)
    simp only [List.length_append, List.length_cons] at this ⊢
    omega
  · simp
  · simp

/-- The parts of a text, as they are written, are the text. -/
theorem text_parts (cs : List Char) : (parts cs).flatMap Part.text = cs := by
  fun_induction parts cs with
  | case1 => rfl
  | case2 cs body rest closed ih =>
    simp [Part.text, ih, ← append_of_close? closed]
  | case3 cs open' ih => simp_all [Part.text]
  | case4 c cs _ ih => simp [Part.text, ih]

theorem body_isInfix {cs body : List Char} (h : .reference body ∈ parts cs) : body <:+: cs := by
  obtain ⟨before, after, split⟩ := List.append_of_mem h
  have whole := text_parts cs
  rw [split] at whole
  simp only [List.flatMap_append, List.flatMap_cons, Part.text] at whole
  exact ⟨before.flatMap Part.text ++ ['$', '\x7b'], '\x7d' :: after.flatMap Part.text, by
    simp [← whole]⟩

theorem parts_of_not_mem {cs : List Char} (bare : '$' ∉ cs) : parts cs = cs.map .char := by
  fun_induction parts cs with
  | case1 => rfl
  | case2 | case3 => simp at bare
  | case4 c cs _ ih => simp [ih (List.not_mem_of_not_mem_cons bare)]

end PackageSheet.Template
