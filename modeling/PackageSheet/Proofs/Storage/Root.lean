import PackageSheet.Proofs.Storage.Rooted

namespace PackageSheet

open Glob

namespace Path

variable {root : Path} {text segment : List Char}

/-- The path that the segments of a root are put behind. -/
def origin (root : Path) : Path :=
  if (rootText root).head?.all (· == '/') then ⟨"/"⟩ else ⟨"."⟩

/-- The segments of a root that lead on from there. -/
def frontNames (root : Path) : List String :=
  (frontSegments (rootText root)).map String.ofList

/-- The path that what is found below a root is spelled behind. -/
def trail (root : Path) : Path :=
  root.frontNames.foldl Disk.child root.origin

theorem exists_slashes (plain : '\\' ∉ root.text.toList) :
    ∃ count, root.text.toList = rootText root ++ List.replicate count '/' := by
  let cut := root.text.toList.reverse.takeWhile fun c => c == '/' || c == '\\'
  have whole : root.text.toList = rootText root ++ cut.reverse := by
    rw [rootText, ← List.reverse_append, List.takeWhile_append_dropWhile, List.reverse_reverse]
  have slashes : ∀ c ∈ cut.reverse, c = '/' := by
    intro c member
    have inside : c ∈ root.text.toList := by
      rw [whole]
      exact List.mem_append_right _ member
    have kind := List.mem_takeWhile_imp (List.mem_reverse.mp member)
    have other : c ≠ '\\' := fun same => plain (same ▸ inside)
    simpa [other] using kind
  refine ⟨cut.reverse.length, ?_⟩
  rw [← List.eq_replicate_of_mem slashes]
  exact whole

theorem segments_slashes (text : List Char) (count : Nat) :
    segments (text ++ List.replicate count '/') = segments text ++ List.replicate count [] := by
  induction count with
  | zero => simp
  | succ count ih =>
    rw [List.replicate_succ', List.replicate_succ', ← List.append_assoc, segments_slash, ih,
      List.append_assoc]
    rfl

theorem steps_slashes (segs : List (List Char)) (count : Nat) :
    steps (segs ++ List.replicate count []) = steps segs := by
  have idle : steps (List.replicate count []) = [] := by
    induction count with
    | zero => rfl
    | succ count ih => rw [List.replicate_succ, steps_cons_of_idle rfl, ih]
  rw [steps_append, idle, List.append_nil]

theorem bare_of_mem_frontSegments (member : segment ∈ frontSegments text) : '/' ∉ segment := by
  unfold frontSegments at member
  split at member
  · cases member
  · exact not_mem_of_mem_segments member
  · exact not_mem_of_mem_segments member

theorem steps_frontSegments (text : List Char) : steps (frontSegments text) = steps (segments text) := by
  unfold frontSegments
  split
  · rfl
  · rename_i cs
    have segs : segments ('/' :: cs) = [] :: segments cs := segments_slash [] cs
    rw [segs, steps_cons_of_idle rfl]
  · rfl

theorem toList_frontNames (root : Path) :
    root.frontNames.map String.toList = frontSegments (rootText root) := by
  simp [frontNames, Function.comp_def]

private theorem bare_of_mem_frontNames {name : String} (member : name ∈ root.frontNames) :
    '/' ∉ name.toList := by
  obtain ⟨segment, inside, rfl⟩ := List.mem_map.mp member
  rw [String.toList_ofList]
  exact bare_of_mem_frontSegments inside

theorem isTrail_origin (root : Path) : Disk.IsTrail root.origin := by
  unfold origin
  split
  · exact ⟨by decide, fun same => absurd same (by decide)⟩
  · exact ⟨by decide, fun _ => rfl⟩

theorem open_of_relative (relative : ¬ text.head?.all (· == '/') = true) :
    text ≠ [] ∧ text.head? ≠ some '/' := by
  constructor
  · rintro rfl
    exact relative rfl
  · intro slash
    rw [slash] at relative
    exact relative rfl

private theorem anchor_of_head? {path : Path}
    (first : (segments path.text.toList).head? = some ['.']) : path.anchor = some .current := by
  obtain ⟨rest, segs⟩ := List.head?_eq_some_iff.mp first
  rw [anchor, divide, segs]
  cases rest <;> rfl

variable (plain : '\\' ∉ root.text.toList) (filled : root.text.toList ≠ [])

include plain

theorem components_eq_front :
    root.components = root.anchor.toList ++ steps (frontSegments (rootText root)) := by
  obtain ⟨count, whole⟩ := exists_slashes plain
  rw [components_eq, whole, segments_slashes, steps_slashes, steps_frontSegments]

include filled

/-- A root starts at the root of the disk exactly if the text that is put in patterns does. -/
theorem isAbsolute_eq : root.isAbsolute = (rootText root).head?.all (· == '/') := by
  obtain ⟨count, whole⟩ := exists_slashes plain
  rw [Bool.eq_iff_iff, isAbsolute_iff_text, whole]
  cases text : rootText root with
  | nil =>
    rw [text, List.nil_append] at whole
    cases count with
    | zero => exact absurd whole filled
    | succ count => exact iff_of_true ⟨_, rfl⟩ rfl
  | cons c cs => simp

theorem trailSteps_origin :
    Disk.trailSteps root.origin = if root.anchor = some .root then [.root] else [] := by
  rw [origin, ← isAbsolute_eq plain filled]
  by_cases absolute : root.isAbsolute = true
  · rw [if_pos absolute, if_pos (isAbsolute_iff.mp absolute)]
    decide
  · rw [if_neg absolute, if_neg (isAbsolute_iff.not.mp absolute)]
    decide

/-- What is left of a root in the paths below it is all of it, but for a `.` at the start. -/
theorem trailSteps_trail (follow : Disk.MayFollowAll root.origin root.frontNames) :
    Disk.trailSteps root.trail =
      if root.anchor = some .current then root.components.tail else root.components := by
  have all := ((isTrail_origin root).foldl_child follow).2
  rw [trail, all, toList_frontNames, trailSteps_origin plain filled, components_eq_front plain]
  rcases divide_cases root with ⟨divided, -⟩ | ⟨rest, -, divided, -⟩ | ⟨rest, divided, -⟩ <;>
  · rw [anchor, divided]
    rfl

/-- The segments of a root lead to its place from that of its origin. -/
theorem exists_leads {disk : Disk} {place : Place} (located : disk.locate root = .ok place) :
    ∃ here, disk.locate root.origin = .ok here ∧
      disk.Leads here (frontSegments (rootText root)) place := by
  obtain ⟨count, whole⟩ := exists_slashes plain
  have leads := (Disk.locate_eq_ok_iff.mp located).2
  rw [whole, segments_slashes] at leads
  obtain ⟨last, leads, idle⟩ := Disk.leads_append.mp leads
  have ends : ∀ segment ∈ List.replicate count ([] : List Char), segment = [] ∨ segment = ['.'] :=
    fun segment member => .inl (List.eq_of_mem_replicate member)
  obtain rfl := Disk.eq_of_leads_idle ends idle
  have absolute := isAbsolute_eq plain filled
  unfold origin
  by_cases anchored : (rootText root).head?.all (· == '/') = true
  · rw [Disk.startOf, if_pos (absolute.trans anchored)] at leads
    refine ⟨[], ?_, ?_⟩
    · rw [if_pos anchored]
      rfl
    · cases text : rootText root with
      | nil =>
        rw [text] at leads
        have empty : ∀ segment ∈ segments [], segment = [] ∨ segment = ['.'] := by decide
        exact Disk.leads_nil.mpr (Disk.eq_of_leads_idle empty leads).symm
      | cons c cs =>
        rw [text] at leads anchored
        obtain rfl : c = '/' := by simpa using anchored
        have segs : segments ('/' :: cs) = [] :: segments cs := segments_slash [] cs
        rw [segs] at leads
        obtain ⟨next, first, leads⟩ := Disk.leads_cons.mp leads
        obtain ⟨-, rfl⟩ := (Disk.follow_idle (.inl rfl)).mp first
        exact leads
  · rw [Disk.startOf, if_neg (absolute.trans_ne anchored)] at leads
    obtain ⟨some, slash⟩ := open_of_relative anchored
    have openFront := frontSegments_of_open some slash
    refine ⟨disk.start, ?_, openFront ▸ leads⟩
    obtain ⟨segment, rest, segs⟩ := List.exists_cons_of_ne_nil (segments_ne_nil (rootText root))
    rw [segs] at leads
    obtain ⟨next, first, -⟩ := Disk.leads_cons.mp leads
    rw [if_neg anchored]
    exact Disk.locate_dot.mpr ⟨Disk.node?_of_follow first, rfl⟩

omit filled in
private theorem exists_frontNames (relative : ¬ (rootText root).head?.all (· == '/') = true)
    (other : root.anchor ≠ some .current) :
    ∃ segment rest, root.frontNames = String.ofList segment :: rest ∧ isStep segment = true := by
  obtain ⟨some, slash⟩ := open_of_relative relative
  obtain ⟨segment, rest, segs⟩ := List.exists_cons_of_ne_nil (segments_ne_nil (rootText root))
  have idle : segment ≠ ['.'] := by
    rintro rfl
    obtain ⟨count, whole⟩ := exists_slashes plain
    refine other (anchor_of_head? ?_)
    rw [whole, segments_slashes, segs]
    rfl
  have filled : segment ≠ [] := by
    rintro rfl
    have text := intercalate_segments (rootText root)
    rw [segs] at text
    cases rest with
    | nil => exact some text.symm
    | cons second rest => exact slash (by rw [← text]; rfl)
  refine ⟨segment, rest.map String.ofList, ?_, by simpa [isStep, filled] using idle⟩
  rw [frontNames, frontSegments_of_open some slash, segs, List.map_cons]

/-- The segments of a root can be put behind its origin if none of them is dropped, that is, if the
root does not begin with `.`, or is `.` itself. -/
theorem mayFollowAll_frontNames (kept : rootText root = ['.'] ∨ root.anchor ≠ some .current) :
    Disk.MayFollowAll root.origin root.frontNames := by
  have origin := isTrail_origin root
  by_cases anchored : root.anchor = some .root
  · refine origin.mayFollowAll_of_ne ?_ fun _ => bare_of_mem_frontNames
    rw [trailSteps_origin plain filled, if_pos anchored]
    exact List.cons_ne_nil _ _
  · rcases kept with dot | other
    · have here : root.origin = ⟨"."⟩ := by
        rw [Path.origin, dot]
        rfl
      have names : root.frontNames = ["."] := by
        rw [frontNames, dot]
        decide
      rw [here, names]
      exact ⟨⟨by decide, fun _ => by decide⟩, trivial⟩
    · have relative : ¬ (rootText root).head?.all (· == '/') = true := by
        rw [← isAbsolute_eq plain filled, isAbsolute_iff]
        exact anchored
      have here : root.origin = ⟨"."⟩ := if_neg relative
      obtain ⟨segment, rest, names, counts⟩ := exists_frontNames plain relative other
      have bare {name : String} : name ∈ root.frontNames → '/' ∉ name.toList :=
        bare_of_mem_frontNames
      rw [here] at origin
      rw [names] at bare
      rw [here, names]
      have first : Disk.MayFollow ⟨"."⟩ (String.ofList segment) := by
        refine ⟨bare List.mem_cons_self, fun _ => ?_⟩
        rw [String.toList_ofList]
        rintro rfl
        cases counts
      obtain ⟨next, steps⟩ := origin.child first
      refine ⟨first, next.mayFollowAll_of_ne ?_ fun name inside =>
        bare (List.mem_cons_of_mem _ inside)⟩
      rw [steps, String.toList_ofList, Path.steps_cons_of_isStep counts]
      exact List.append_ne_nil_of_right_ne_nil _ (List.cons_ne_nil _ _)

omit plain filled in
theorem isTrail_trail (follow : Disk.MayFollowAll root.origin root.frontNames) :
    Disk.IsTrail root.trail :=
  ((isTrail_origin root).foldl_child follow).1

theorem locate_trail {disk : Disk} {place : Place} (located : disk.locate root = .ok place)
    (follow : Disk.MayFollowAll root.origin root.frontNames) (admitted : Disk.Admits root.trail) :
    disk.locate root.trail = .ok place := by
  obtain ⟨here, start, leads⟩ := exists_leads plain filled located
  refine ((isTrail_origin root).locate_foldl follow admitted).mpr ⟨here, start, ?_⟩
  rw [toList_frontNames]
  exact leads

omit plain filled in
/-- A search for a pattern below a root begins at the origin of the root. -/
theorem origin_eq {pattern : String} (relative : (Path.mk pattern).isAbsolute = false) :
    (if (Path.mk (rooted root pattern)).isAbsolute then ⟨"/"⟩ else ⟨"."⟩ : Path) = root.origin := by
  have whole : (Path.mk (rooted root pattern)).isAbsolute =
      (rootText root).head?.all (· == '/') := by
    rw [Bool.eq_iff_iff, isAbsolute_iff_text, toList_rooted relative]
    cases rootText root with
    | nil => exact iff_of_true ⟨_, rfl⟩ rfl
    | cons c cs =>
      by_cases slash : c = '/'
      · subst slash
        exact iff_of_true ⟨_, by rw [escape_slash]; rfl⟩ rfl
      · have first : (escape (c :: cs) ++ '/' :: dropHere pattern.toList).head? ≠ some '/' := by
          rw [escape, List.flatMap_cons]
          split <;> simp [slash]
        refine iff_of_false ?_ (by simpa using slash)
        rintro ⟨rest, whole⟩
        exact first (congrArg List.head? whole)
  rw [whole]
  rfl

end Path

end PackageSheet
