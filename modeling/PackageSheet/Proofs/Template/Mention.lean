import Mathlib.Logic.Relation
import PackageSheet.Proofs.Text.Trim
import PackageSheet.Template.Expansion

namespace PackageSheet

namespace Template

def opening : List Char := ['$', '\x7b']

/-- A text mentions the name of its first reference, and what the text after that one mentions. -/
inductive Mentions : List Char → List Char → Prop where
  | first {before body after : List Char} (leftmost : ¬ opening <:+: before)
      (closing : '\x7d' ∉ body) :
      Mentions (before ++ opening ++ body ++ '\x7d' :: after) (Text.trim body)
  | later {before body after name : List Char} (leftmost : ¬ opening <:+: before)
      (closing : '\x7d' ∉ body) (rest : Mentions after name) :
      Mentions (before ++ opening ++ body ++ '\x7d' :: after) name

variable {before body after cs name : List Char} {c : Char}

theorem close?_append (closing : '\x7d' ∉ body) :
    close? (body ++ '\x7d' :: after) = some (body, after) := by
  have inside : ∀ c ∈ body, (c != '\x7d') = true := by
    intro c member
    exact bne_iff_ne.mpr fun same => closing (same ▸ member)
  simp [close?, List.takeWhile_append_of_pos inside, List.dropWhile_append_of_pos inside]

theorem not_mem_of_close? (found : close? cs = some (body, after)) : '\x7d' ∉ body := by
  unfold close? at found
  split at found
  · cases found
    exact fun member => by simpa using List.mem_takeWhile_imp member
  · cases found

theorem not_mem_of_close?_eq_none (missing : close? cs = none) : '\x7d' ∉ cs := by
  intro member
  obtain ⟨body, after, rfl, closing⟩ := List.eq_append_cons_of_mem member
  rw [close?_append closing] at missing
  cases missing

/-- Characters in front of the leftmost opening are no part of a reference. -/
theorem parts_append (leftmost : ¬ opening <:+: before) (closing : '\x7d' ∉ body) :
    parts (before ++ opening ++ body ++ '\x7d' :: after) =
      before.map .char ++ .reference body :: parts after := by
  induction before with
  | nil =>
    rw [List.nil_append, List.append_assoc]
    change parts ('$' :: '\x7b' :: (body ++ '\x7d' :: after)) = _
    rw [parts]
    split
    · rename_i found
      rw [close?_append closing] at found
      cases found
      rfl
    · rename_i missing
      rw [close?_append closing] at missing
      cases missing
  | cons c before ih =>
    rw [List.infix_cons_iff, not_or] at leftmost
    have rest := ih leftmost.2
    rw [List.cons_append, List.cons_append, List.cons_append, parts, rest]
    · rfl
    · rintro cs rfl next
      refine leftmost.1 ?_
      cases before with
      | nil => cases next
      | cons d before =>
        obtain ⟨rfl, -⟩ := List.cons.inj next
        exact ⟨before, rfl⟩

theorem Mentions.closed (mention : Mentions cs name) : '\x7d' ∈ cs := by
  cases mention <;> simp

private theorem Mentions.cons (outside : ¬ opening <+: c :: cs) (mention : Mentions cs name) :
    Mentions (c :: cs) name := by
  have still {before body after : List Char} (leftmost : ¬ opening <:+: before)
      (outside : ¬ opening <+: c :: (before ++ opening ++ body ++ '\x7d' :: after)) :
      ¬ opening <:+: c :: before := by
    rw [List.infix_cons_iff, not_or]
    refine ⟨fun opened => outside (opened.trans ?_), leftmost⟩
    exact ⟨opening ++ body ++ '\x7d' :: after, by simp⟩
  cases mention with
  | @first before body after leftmost closing =>
    exact @Mentions.first (c :: before) _ _ (still leftmost outside) closing
  | @later before body after name leftmost closing rest =>
    exact @Mentions.later (c :: before) _ _ _ (still leftmost outside) closing rest

theorem mentions_of_mem_parts (member : .reference body ∈ parts cs) :
    Mentions cs (Text.trim body) := by
  fun_induction parts cs with
  | case1 => cases member
  | case2 cs found after closed ih =>
    have closing := not_mem_of_close? closed
    rw [← append_of_close? closed]
    rcases List.mem_cons.mp member with same | member
    · cases same
      exact @Mentions.first [] _ _ (by decide) closing
    · exact @Mentions.later [] _ _ _ (by decide) closing (ih member)
  | case3 cs missing ih =>
    have mention := ih ((List.mem_cons.mp member).resolve_left (by simp))
    exact absurd mention.closed (by simpa using not_mem_of_close?_eq_none missing)
  | case4 c cs other ih =>
    refine .cons ?_ (ih ((List.mem_cons.mp member).resolve_left (by simp)))
    rintro ⟨rest, whole⟩
    obtain ⟨rfl, rfl⟩ := List.cons.inj whole
    exact other _ rfl rfl

/-- A text mentions the names of the references that it is divided into. -/
theorem mentions_iff :
    Mentions cs name ↔ ∃ body, .reference body ∈ parts cs ∧ Text.trim body = name := by
  constructor
  · intro mention
    induction mention with
    | first leftmost closing =>
      rw [parts_append leftmost closing]
      exact ⟨_, by simp, rfl⟩
    | later leftmost closing rest ih =>
      obtain ⟨body, member, same⟩ := ih
      rw [parts_append leftmost closing]
      exact ⟨body, by simp [member], same⟩
  · rintro ⟨body, member, rfl⟩
    exact mentions_of_mem_parts member

end Template

namespace Scope

open Template

variable {scope : Scope}

theorem resolve?_trim (body : List Char) :
    scope.resolve? (Text.trim body) = scope.resolve? body := by
  simp [resolve?]

/-- A name refers to those that its value mentions. -/
def Refers (scope : Scope) (name other : List Char) : Prop :=
  ∃ value, scope.resolve? name = some value ∧ Mentions value.toList other

/-- References lead from a text to a name. -/
def Leads (scope : Scope) (text name : List Char) : Prop :=
  ∃ root, Mentions text root ∧ Relation.ReflTransGen scope.Refers root name

/-- References lead from a name back to itself. -/
def OnCircle (scope : Scope) (name : List Char) : Prop :=
  Relation.TransGen scope.Refers name name

end Scope

end PackageSheet
