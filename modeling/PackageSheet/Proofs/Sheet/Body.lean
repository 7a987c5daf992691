import PackageSheet.Proofs.Sheet.Value

namespace PackageSheet

open Grammar

namespace Outcome

variable {α : Type}

theorem problems_after_eq_nil {problems : List Diagnostic} {outcome : Outcome α} :
    (outcome.after problems).problems = [] ↔ problems = [] ∧ outcome.problems = [] :=
  List.append_eq_nil_iff

@[simp] theorem after_nil (outcome : Outcome α) : outcome.after [] = outcome := rfl

end Outcome

private theorem Grammar.Body.not_closeBrace {b : List Token} (inside : Body b) :
    ∀ t ∈ b.head?, t.kind ≠ .closeBrace := by
  cases inside with
  | nil => simp
  | semicolon kind => simp [kind]
  | property property =>
    cases property with
    | intro named => simp [named]

namespace Reading

variable {final : Prop} {reading : Reading} {declared : PackageSheet.Rule}
  {name colon closing : Token} {b vs rest tokens : List Token}

private theorem property_append (sep : colon.kind = .colon) (values : Values final vs)
    (last : final → rest = []) (ended : ∀ t ∈ rest.head?, t.kind = .semicolon ∨ t.kind = .closeBrace) :
    reading.property declared name (colon :: (vs ++ rest)) =
      ⟨declared.declare name.text (reading.values vs).result (reading.locate name), [], rest⟩ := by
  have read := @values_append _ reading _ _ values last ended
  unfold property
  rw [show nextIs .colon (colon :: (vs ++ rest)) = true from nextIs_iff.mpr ⟨_, _, rfl, sep⟩]
  simp only [Bool.not_true, Bool.false_eq_true, if_false, List.drop_one, List.tail_cons, read]
  cases rest with
  | nil => rfl
  | cons t rest => simp [ended t rfl]

/-- A property declares its values, and the body goes on behind it. -/
theorem body_property (named : name.kind = .identifier) (sep : colon.kind = .colon)
    (values : Values final vs) (last : final → rest = [])
    (ended : ∀ t ∈ rest.head?, t.kind = .semicolon ∨ t.kind = .closeBrace) :
    body reading declared (name :: colon :: (vs ++ rest)) =
      body reading
        (declared.declare name.text (reading.values vs).result (reading.locate name)) rest := by
  rw [body]
  split
  · simp_all
  · simp_all
  · rw [property_append sep values last ended, Outcome.after_nil]
  · simp_all

theorem body_semicolon {t : Token} (kind : t.kind = .semicolon) :
    body reading declared (t :: tokens) = body reading declared tokens := by
  rw [body]
  split <;> simp_all

theorem body_closeBrace (closes : closing.kind = .closeBrace) :
    body reading declared (closing :: rest) = ⟨declared, [], rest⟩ := by
  rw [body]
  split <;> simp_all

/-- A body is read up to and with its closing brace, whatever follows. -/
theorem body_append (inside : Body b) (closes : closing.kind = .closeBrace) :
    ∃ filled, ∀ rest, body reading declared (b ++ closing :: rest) = ⟨filled, [], rest⟩ := by
  induction inside generalizing declared with
  | nil => exact ⟨declared, fun rest => body_closeBrace closes⟩
  | @semicolon t ts kind after ih =>
    obtain ⟨filled, read⟩ := @ih declared
    refine ⟨filled, fun rest => ?_⟩
    rw [List.cons_append, body_semicolon kind]
    exact read rest
  | @property p ts property followed after ih =>
    obtain @⟨name, colon, vs, named, sep, values⟩ := property
    obtain ⟨filled, read⟩ :=
      @ih (declared.declare name.text (reading.values vs).result (reading.locate name))
    refine ⟨filled, fun rest => ?_⟩
    have ended : ∀ t ∈ (ts ++ closing :: rest).head?,
        t.kind = .semicolon ∨ t.kind = .closeBrace := by
      cases ts with
      | nil => simp [closes]
      | cons next ts => simpa using .inl (followed next rfl)
    rw [List.append_assoc, List.cons_append, List.cons_append,
      body_property named sep values False.elim ended]
    exact read rest

private theorem property_read (clean : (reading.property declared name tokens).problems = []) :
    ∃ colon vs, tokens = colon :: (vs ++ (reading.property declared name tokens).rest) ∧
      colon.kind = .colon ∧ Values ((reading.property declared name tokens).rest = []) vs ∧
      ∀ t ∈ (reading.property declared name tokens).rest.head?,
        t.kind = .semicolon ∨ t.kind = .closeBrace := by
  unfold property at clean ⊢
  by_cases sep : nextIs .colon tokens = true
  · obtain ⟨colon, ts, rfl, kind⟩ := nextIs_iff.mp sep
    obtain ⟨vs, split, values, -⟩ := @values_read reading ts
    simp only [sep, Bool.not_true, Bool.false_eq_true, if_false, List.drop_one, List.tail_cons]
      at clean ⊢
    generalize reading.values ts = found at *
    obtain ⟨result, problems, rest⟩ := found
    cases rest with
    | nil => exact ⟨colon, vs, congrArg _ split, kind, values, by simp⟩
    | cons t rest =>
      by_cases ends : t.kind = .semicolon ∨ t.kind = .closeBrace
      · simp only [ends, if_true] at clean ⊢
        exact ⟨colon, vs, congrArg _ split, kind, values, by simpa using ends⟩
      · simp [ends] at clean
  · simp [sep] at clean

/-- What is read without a report is a body and its closing brace. -/
theorem body_read (clean : (body reading declared tokens).problems = []) :
    ∃ b closing, tokens = b ++ closing :: (body reading declared tokens).rest ∧ Body b ∧
      closing.kind = .closeBrace := by
  fun_induction body reading declared tokens with
  | case1 => cases clean
  | case2 declared t ts kind => exact ⟨[], t, rfl, .nil, kind⟩
  | case3 declared t ts kind ih =>
    obtain ⟨b, closing, split, inside, closes⟩ := ih clean
    exact ⟨t :: b, closing, congrArg _ split, .semicolon kind inside, closes⟩
  | case4 declared t ts kind found ih =>
    obtain ⟨first, later⟩ := Outcome.problems_after_eq_nil.mp clean
    obtain ⟨colon, vs, split, sep, values, ended⟩ := property_read first
    obtain ⟨b, closing, after, inside, closes⟩ := ih later
    change ts = colon :: (vs ++ found.rest) at split
    change Values (found.rest = []) vs at values
    change ∀ t ∈ found.rest.head?, t.kind = .semicolon ∨ t.kind = .closeBrace at ended
    have followed : ∀ t ∈ b.head?, t.kind = .semicolon := by
      intro next first
      have ahead : next ∈ found.rest.head? := by
        rw [after, List.head?_append, Option.mem_def.mp first]
        rfl
      exact (ended next ahead).resolve_right (inside.not_closeBrace next first)
    have proper : Grammar.Property False (t :: colon :: vs) :=
      ⟨kind, sep, values.congr (by rw [after]; simp)⟩
    refine ⟨(t :: colon :: vs) ++ b, closing, ?_, .property proper followed inside, closes⟩
    rw [split, Outcome.rest_after, List.append_assoc, ← after]
    rfl
  | case5 => exact absurd clean (by simp [Outcome.after])

end Reading

end PackageSheet
