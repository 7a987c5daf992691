namespace PackageSheet.Text

def beginnings : List Char → List (List Char)
  | [] => [[]]
  | c :: cs => [] :: (beginnings cs).map (c :: ·)

def fragments : List Char → List (List Char)
  | [] => [[]]
  | c :: cs => beginnings (c :: cs) ++ fragments cs

theorem mem_beginnings {part cs : List Char} : part ∈ beginnings cs ↔ part <+: cs := by
  induction cs generalizing part with
  | nil => simp [beginnings]
  | cons c cs ih =>
    simp only [beginnings, List.mem_cons, List.mem_map, List.prefix_cons_iff]
    refine or_congr_right ⟨?_, ?_⟩
    · rintro ⟨rest, mem, rfl⟩
      exact ⟨rest, rfl, ih.mp mem⟩
    · rintro ⟨rest, rfl, below⟩
      exact ⟨rest, ih.mpr below, rfl⟩

theorem mem_fragments {part cs : List Char} : part ∈ fragments cs ↔ part <:+: cs := by
  induction cs with
  | nil => simp [fragments]
  | cons c cs ih => simp [fragments, mem_beginnings, ih, List.infix_cons_iff]

end PackageSheet.Text

namespace PackageSheet

variable {α : Type} [DecidableEq α]

private theorem nodup_eraseDups (xs : List α) : xs.eraseDups.Nodup := by
  match xs with
  | [] => simp
  | x :: xs =>
    rw [List.eraseDups_cons, List.nodup_cons]
    refine ⟨by simp [List.mem_eraseDups], nodup_eraseDups _⟩
termination_by xs.length
decreasing_by
  have := List.length_filter_le (fun b => !b == x) xs
  simp only [List.length_cons]
  omega

/-- The number of different elements of a list that are not among some others. -/
def countOutside (others xs : List α) : Nat :=
  (xs.filter (· ∉ others)).eraseDups.length

theorem countOutside_mono {others xs ys : List α} (sub : xs ⊆ ys) :
    countOutside others xs ≤ countOutside others ys := by
  apply (nodup_eraseDups _).length_le_of_subset
  intro x mem
  simp only [List.mem_eraseDups, List.mem_filter] at mem ⊢
  exact ⟨sub mem.1, mem.2⟩

theorem countOutside_cons_lt {others xs ys : List α} {x : α} (sub : xs ⊆ ys) (mem : x ∈ ys)
    (new : x ∉ others) : countOutside (x :: others) xs < countOutside others ys := by
  have distinct : (x :: (xs.filter (· ∉ x :: others)).eraseDups).Nodup := by
    rw [List.nodup_cons]
    exact ⟨by simp [List.mem_eraseDups], nodup_eraseDups _⟩
  apply distinct.length_le_of_subset
  intro y h
  simp only [List.mem_cons, List.mem_eraseDups, List.mem_filter] at h ⊢
  rcases h with rfl | ⟨mem, out⟩
  · exact ⟨mem, by simpa using new⟩
  · exact ⟨sub mem, by simp_all⟩

end PackageSheet
