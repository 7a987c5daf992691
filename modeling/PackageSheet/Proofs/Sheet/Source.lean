import PackageSheet.Proofs.Sheet.Grammar
import PackageSheet.Proofs.Text.Trim
import PackageSheet.Proofs.Token.Tiling

namespace PackageSheet

open String (utf8Len)

namespace Lexeme

theorem kind_quoted (quote : Char) (cs : List Char) :
    (quoted quote cs).kind = .unknown ∨ (quoted quote cs).kind = .stringLiteral := by
  fun_induction quoted quote cs <;> simp_all [prepend]

theorem kind_atQuoted (cs : List Char) :
    (atQuoted cs).kind = .unknown ∨ (atQuoted cs).kind = .atStringLiteral := by
  fun_induction atQuoted cs <;> simp_all [prepend]

theorem kind_bracketed (depth : Nat) (cs : List Char) :
    (bracketed depth cs).kind = .unknown ∨ (bracketed depth cs).kind = .selectorParameter := by
  fun_induction bracketed depth cs <;> simp_all [prepend]

private theorem kind_afterAt (dialect : Dialect) (cs : List Char) :
    (afterAt dialect cs).kind ≠ .identifier := by
  unfold afterAt
  split
  · rename_i cs
    rcases kind_atQuoted cs with kind | kind <;> simp [prepend, kind]
  · split <;> simp [run]
  · simp

private theorem text_ne_nil_of_identifier (dialect : Dialect) (c : Char) (cs : List Char) :
    (read dialect c cs).kind = .identifier → (read dialect c cs).text ≠ [] := by
  unfold read
  split
  · rcases kind_quoted c cs with other | other <;> simp [prepend, other]
  split
  · exact fun kind => absurd kind (kind_afterAt dialect cs)
  split
  · rcases kind_bracketed 0 cs with other | other <;> simp [prepend, other]
  split
  · simp
  split
  · simp [prepend]
  split
  · simp [prepend]
  split <;> simp

end Lexeme

namespace Reading

/-- The text from one token to another is not all blank. -/
def Shows (reading : Reading) (first last : Token) : Prop :=
  ∃ c ∈ slice first.start last.stop 0 reading.source, Text.isBlank c = false

/-- Tokens that come from the text that is read: identifiers are not empty, and the text from one
token to the same or a later one is not all blank. -/
structure Faithful (reading : Reading) (tokens : List Token) : Prop where
  named : ∀ t ∈ tokens, t.kind = .identifier → t.text ≠ ""
  shown : ∀ t ∈ tokens, reading.Shows t t
  between : tokens.Pairwise reading.Shows

variable {reading : Reading} {tokens others v : List Token}

theorem Faithful.sublist (faithful : reading.Faithful tokens) (sub : others.Sublist tokens) :
    reading.Faithful others where
  named t member := faithful.named t (sub.subset member)
  shown t member := faithful.shown t (sub.subset member)
  between := faithful.between.sublist sub

private theorem mem_slice {ahead after : List Char} {c : Char} {start stop offset : Nat}
    (here : start = offset + utf8Len ahead) (some : start < stop) :
    c ∈ slice start stop offset (ahead ++ c :: after) := by
  induction ahead generalizing offset with
  | nil =>
    have here : start = offset := here
    simp [slice, here, here ▸ some]
  | cons d ahead ih =>
    have size := d.utf8Size_pos
    rw [String.utf8Len_cons] at here
    rw [List.cons_append, slice, if_pos (by omega)]
    exact ih (by omega)

private theorem shows_of_isRead {dialect : Dialect} {ahead after : List Char} {c : Char}
    {first last : Token} (split : reading.source = ahead ++ c :: after)
    (visible : Text.isBlank c = false) (read : first.IsRead dialect ahead c after)
    (some : first.start < last.stop) : reading.Shows first last := by
  refine ⟨c, ?_, visible⟩
  rw [split]
  exact mem_slice (by simpa using read.covers.start) some

/-- The tokens of a text are faithful to it. -/
theorem faithful_of_lexed {dialect : Dialect}
    (lexed : Lexed dialect [] reading.source tokens) : reading.Faithful tokens where
  named t member kind := by
    obtain ⟨ahead, c, after, -, -, read⟩ := lexed.exists_isRead member
    rw [read.kind] at kind
    rw [read.text]
    simpa using Lexeme.text_ne_nil_of_identifier dialect c after kind
  shown t member := by
    obtain ⟨ahead, c, after, split, visible, read⟩ := lexed.exists_isRead member
    exact shows_of_isRead split visible read (lexed.tiles.start_lt_stop member)
  between := by
    refine lexed.tiles.pairwise.imp_of_mem fun {first last} one two apart => ?_
    obtain ⟨ahead, c, after, split, visible, read⟩ := lexed.exists_isRead one
    refine shows_of_isRead split visible read ?_
    have := lexed.tiles.start_lt_stop one
    have := lexed.tiles.start_lt_stop two
    omega

private theorem join_eq_empty_iff (texts : List String) :
    String.join texts = "" ↔ ∀ text ∈ texts, text = "" := by
  rw [← String.toList_inj, String.toList_join]
  simp

/-- A value is empty only if it is made of empty literals. -/
theorem valueText_ne_empty_iff (faithful : reading.Faithful v) :
    reading.valueText v ≠ "" ↔ Grammar.Valued v := by
  cases v with
  | nil => simp [valueText, Grammar.Valued]
  | cons first rest =>
    obtain ⟨last, final⟩ : ∃ last, (first :: rest).getLast? = some last :=
      ⟨_, List.getLast?_cons⟩
    have shows : reading.Shows first last := by
      rcases List.mem_cons.mp (List.mem_of_getLast? final) with rfl | later
      · exact faithful.shown last List.mem_cons_self
      · exact (List.pairwise_cons.mp faithful.between).1 last later
    unfold valueText
    rw [final]
    by_cases literals : (first :: rest).all Token.isString = true
    · simp only [literals, if_true, ne_eq, join_eq_empty_iff, List.forall_mem_map, not_forall]
      rw [List.all_eq_true] at literals
      refine exists_congr fun t => ?_
      constructor
      · rintro ⟨member, some⟩
        exact ⟨member, .inr some⟩
      · rintro ⟨member, raw | some⟩
        · rw [literals t member] at raw
          cases raw
        · exact ⟨member, some⟩
    · simp only [literals, Bool.false_eq_true, if_false]
      obtain ⟨t, member, raw⟩ : ∃ t ∈ first :: rest, ¬ t.isString = true := by
        simpa only [List.all_eq_true, not_forall, exists_prop] using literals
      refine iff_of_true ?_ ⟨t, member, .inl (Bool.eq_false_iff.mpr raw)⟩
      obtain ⟨c, own, visible⟩ := shows
      intro empty
      have blank := Text.trim_eq_nil_iff.mp (String.ofList_eq_empty_iff.mp empty) c own
      rw [visible] at blank
      cases blank

end Reading

end PackageSheet
