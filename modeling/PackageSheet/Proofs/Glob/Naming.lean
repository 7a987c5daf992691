import PackageSheet.Proofs.Glob.Rooting

namespace PackageSheet.Glob

variable {free : Bool} {text name cs : List Char} {ps qs : List Piece}

/-- A pattern to leave out files by their names: of one component, behind runs of directories. -/
def IsNaming (token : String) : Prop :=
  let texts := Path.segments (dropHere token.toList)
  (∀ text ∈ texts.dropLast, text = ['*', '*']) ∧
    ∀ text ∈ texts.getLast?, text ≠ [] ∧ text ≠ ['*', '*']

instance (token : String) : Decidable (IsNaming token) :=
  inferInstanceAs (Decidable (_ ∧ _))

private theorem Reads.slash_not_mem (reads : Reads free text ps) (bare : '/' ∉ text) :
    .literal '/' ∉ ps := by
  induction reads with
  | nil => exact List.not_mem_nil
  | cons one more ih =>
    obtain ⟨inner, outer⟩ := not_or.mp (List.mem_append.not.mp bare)
    refine List.not_mem_cons_of_ne_of_not_mem ?_ (ih outer)
    rintro rfl
    cases one
    exact inner (List.mem_singleton_self _)

private theorem not_mem_of_isMatch (plain : .anyPath ∉ ps) (bare : .literal '/' ∉ ps)
    (matched : isMatch ps cs = true) : '/' ∉ cs := by
  induction ps generalizing cs with
  | nil =>
    rw [isMatch_nil] at matched
    simp [matched]
  | cons piece ps ih =>
    have later {rest : List Char} (matched : isMatch ps rest = true) : '/' ∉ rest :=
      ih (List.not_mem_of_not_mem_cons plain) (List.not_mem_of_not_mem_cons bare) matched
    rcases piece.kind with single | rfl | rfl
    · obtain ⟨c, rest, rfl, accepted, matched⟩ := (isMatch_single single).mp matched
      refine List.not_mem_cons_of_ne_of_not_mem ?_ (later matched)
      rintro rfl
      cases piece with
      | literal l =>
        obtain rfl : l = '/' := by simpa [Piece.accepts] using accepted
        exact bare List.mem_cons_self
      | anyRun | anyPath => exact single
      | anyChar | within | outside => simp [Piece.accepts] at accepted
    · obtain ⟨front, rest, rfl, clean, matched⟩ := isMatch_anyRun.mp matched
      exact List.mem_append.not.mpr (not_or.mpr ⟨clean, later matched⟩)
    · exact absurd List.mem_cons_self plain

private theorem reads_behind {fronts : List (List Char)} (all : ∀ text ∈ fronts, text = ['*', '*'])
    {ps : List Piece} (reads : Reads true (['/'].intercalate (fronts ++ [name])) ps) :
    ∃ qs, ps = List.replicate fronts.length .anyPath ++ qs ∧ Reads true name qs := by
  induction fronts generalizing ps with
  | nil => exact ⟨ps, rfl, by simpa [List.intercalate] using reads⟩
  | cons front fronts ih =>
    obtain ⟨rfl, others⟩ := List.forall_mem_cons.mp all
    have whole : ['/'].intercalate (['*', '*'] :: (fronts ++ [name])) =
        ['*', '*', '/'] ++ ['/'].intercalate (fronts ++ [name]) := by
      obtain ⟨first, rest, filled⟩ :=
        List.exists_cons_of_ne_nil (List.append_ne_nil_of_right_ne_nil fronts (by simp : [name] ≠ []))
      rw [filled, Path.intercalate_cons, Path.intercalate_cons]
      rfl
    rw [List.cons_append, whole] at reads
    obtain ⟨later, rfl, more⟩ := (Reads.split .anyPath).mp reads
    obtain ⟨qs, rfl, own⟩ := ih others more
    exact ⟨qs, rfl, own⟩

private theorem exists_of_isMatch_behind {count : Nat} (some : qs ≠ [])
    (matched : isMatch (List.replicate count .anyPath ++ qs) cs = true) :
    ∃ front rest, cs = front ++ rest ∧ (front = [] ∨ front.getLast? = .some '/') ∧
      isMatch qs rest = true := by
  induction count generalizing cs with
  | zero => exact ⟨[], cs, rfl, .inl rfl, matched⟩
  | succ count ih =>
    rw [List.replicate_succ, List.cons_append, isMatch_anyPath] at matched
    rcases matched with none | matched | ⟨first, rest, rfl, matched⟩
    · exact absurd none (List.append_ne_nil_of_right_ne_nil _ some)
    · exact ih matched
    · obtain ⟨front, last, rfl, ends, own⟩ := ih matched
      refine ⟨first ++ '/' :: front, last, by simp, .inr ?_, own⟩
      rw [List.getLast?_append, List.getLast?_cons]
      rcases ends with rfl | ends
      · rfl
      · rw [ends]
        rfl

private theorem isMatch_behind (count : Nat) (matched : isMatch qs cs = true) :
    isMatch (List.replicate count .anyPath ++ qs) cs = true := by
  induction count with
  | zero => exact matched
  | succ count ih => exact isMatch_anyPath.mpr (.inr (.inl ih))

private theorem getLast?_segments {front rest : List Char}
    (ends : front = [] ∨ front.getLast? = some '/')
    (bare : '/' ∉ rest) : (Path.segments (front ++ rest)).getLast? = some rest := by
  rcases ends with rfl | ends
  · rw [List.nil_append, Path.segments_of_bare bare]
    rfl
  · obtain ⟨before, rfl⟩ := List.getLast?_eq_some_iff.mp ends
    rw [List.append_assoc, List.singleton_append, Path.segments_slash, Path.segments_of_bare bare,
      List.getLast?_concat]

private theorem IsNaming.exists_reads {token : String} {exclusion : Exclusion} (naming : IsNaming token)
    (compiled : Exclusion.compile token = .ok exclusion) :
    exclusion.absolute = false ∧ ∃ count qs, qs ≠ [] ∧ .anyPath ∉ qs ∧ .literal '/' ∉ qs ∧
      ∀ cs, isMatch exclusion.pieces cs = isMatch (List.replicate count .anyPath ++ qs) cs := by
  obtain ⟨fronts, own⟩ := naming
  have relative : (Path.mk token).isAbsolute = false := by
    rw [← Bool.not_eq_true, Path.isAbsolute_iff_text]
    rintro ⟨rest, text⟩
    have whole : dropHere token.toList = [] ++ '/' :: rest := by
      rw [show token.toList = '/' :: rest from text]
      rfl
    rw [whole, Path.segments_slash, List.dropLast_append_of_ne_nil (Path.segments_ne_nil _)] at fronts
    exact absurd (fronts [] (List.mem_append_left _ (List.mem_singleton_self _))) (by decide)
  obtain ⟨pieces, compiles, rfl⟩ : ∃ pieces, compile (dropHere token.toList) = .ok pieces ∧
      exclusion = ⟨pieces, false⟩ := by
    unfold Exclusion.compile at compiled
    dsimp only at compiled
    rw [relative] at compiled
    cases whole : compile (dropHere token.toList) with
    | error fault => simp [whole, Except.map] at compiled
    | ok pieces =>
      refine ⟨pieces, rfl, ?_⟩
      simpa [whole, Except.map, eq_comm] using compiled
  obtain ⟨ps, reads, rfl⟩ := compile_eq_ok_iff.mp compiles
  obtain ⟨before, last, texts⟩ :
      ∃ before last, Path.segments (dropHere token.toList) = before ++ [last] :=
    ⟨_, _, (List.dropLast_concat_getLast (Path.segments_ne_nil _)).symm⟩
  rw [texts, List.dropLast_concat] at fronts
  rw [texts, List.getLast?_concat] at own
  obtain ⟨filled, other⟩ := own last rfl
  have bare : '/' ∉ last := by
    have inside : last ∈ Path.segments (dropHere token.toList) := by simp [texts]
    exact Path.not_mem_of_mem_segments inside
  rw [← Path.intercalate_segments (dropHere token.toList), texts] at reads
  obtain ⟨qs, rfl, name⟩ := reads_behind fronts reads
  refine ⟨rfl, _, qs, ?_, ?_, name.slash_not_mem bare, isMatch_merged _⟩
  · rintro rfl
    cases name
    exact filled rfl
  · exact (name.component bare).resolve_left fun stars => other stars.2.1

private theorem exists_names {steps : List Component}
    (named : ∀ c ∈ steps, ∃ text : String, c = .name text ∧ Path.IsName text.toList) :
    ∃ texts : List String, steps = texts.map .name ∧ ∀ text ∈ texts, Path.IsName text.toList := by
  induction steps with
  | nil => exact ⟨[], rfl, nofun⟩
  | cons c steps ih =>
    obtain ⟨⟨text, rfl, own⟩, others⟩ := List.forall_mem_cons.mp named
    obtain ⟨texts, rfl, all⟩ := ih others
    exact ⟨text :: texts, rfl, List.forall_mem_cons.mpr ⟨own, all⟩⟩

/-- A pattern for names takes out a path if it stands for the last name of the path. -/
theorem Exclusion.excludes_iff_of_isNaming {token : String} {exclusion : Exclusion}
    (naming : IsNaming token) (compiled : Exclusion.compile token = .ok exclusion) :
    ∃ qs, ∀ (source : Path) (steps : List Component) (name : String),
      source.components = steps ++ [.name name] →
        (exclusion.excludes source = true ↔ isMatch qs name.toList = true) := by
  obtain ⟨relative, count, qs, some, plain, bare, pieces⟩ := naming.exists_reads compiled
  refine ⟨qs, fun source steps name components => ?_⟩
  have named (text : String) (member : .name text ∈ source.components) : Path.IsName text.toList :=
    Path.isName_of_mem_components member
  constructor
  · intro excluded
    unfold excludes at excluded
    rw [if_neg (by simp [relative]), List.any_eq_true] at excluded
    obtain ⟨tail, listed, matched⟩ := excluded
    obtain ⟨behind, filled⟩ := mem_tails.mp listed
    -- The tail is made of names, of which the last is that of the path.
    have inner : ∀ c ∈ tail, ∃ text, c = .name text ∧ Path.IsName text.toList := by
      intro c member
      obtain ⟨known, isName⟩ := List.mem_filter.mp (behind.subset member)
      cases c with
      | name text => exact ⟨text, rfl, named text known⟩
      | root | current | parent => cases isName
    obtain ⟨texts, rfl, own⟩ := exists_names inner
    have last : texts.getLast? = .some name := by
      obtain ⟨more, whole⟩ := behind
      have ends := congrArg List.getLast? whole
      rw [components, List.filter_append, List.getLast?_append, List.getLast?_append] at ends
      obtain ⟨before, final, rfl⟩ := (List.eq_nil_or_concat texts).resolve_left
        fun none => filled (none ▸ rfl)
      simpa [Component.isName] using ends
    rw [pieces, Path.text_ofComponents fun text member => (own text member).isBare] at matched
    obtain ⟨front, rest, whole, ends, matched⟩ := exists_of_isMatch_behind some matched
    have found := getLast?_segments ends (not_mem_of_isMatch plain bare matched)
    rw [← whole, Path.segments_intercalate, List.getLast?_map, last] at found
    · rwa [Option.some.inj found]
    · exact List.forall_mem_map.mpr fun text member => (own text member).bare
    · simpa using filled
  · intro matched
    have own : source.components = steps ++ [name].map .name := components
    refine excludes_of_names relative own (List.cons_ne_nil _ _) ?_ ?_
    · rw [List.forall_mem_singleton]
      exact (named name (by simp [components])).isBare
    · rw [pieces]
      exact isMatch_behind count (by simpa using matched)

end PackageSheet.Glob
