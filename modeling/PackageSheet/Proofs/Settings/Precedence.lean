import PackageSheet.Proofs.Settings.Order
import PackageSheet.Proofs.Storage.Tree
import PackageSheet.Report

/-!
Which definition a session goes by. Definitions from the command line replace those of the
settings file under the same spelling of a name (`Settings.get?_given`). The table of the session
takes no notice of case and goes through the spellings in order, so of several spellings of one
name the greatest decides, wherever it comes from (`get?_tableOf_given_iff`).
-/

namespace PackageSheet

namespace Settings

def definitions (texts : List String) : List (String × String) :=
  texts.filterMap parseDefine?

/-- The settings of a file with the definitions of the command line. -/
def given (file : Settings) (texts : List String) : Settings :=
  { file with defines := file.defines.setAll (definitions texts) }

/-- The value of a name, as it is spelled: the last one from the command line, or else the one of
the file. -/
def valueOf? (file : Settings) (texts : List String) (name : String) : Option String :=
  (Bindings.get? (definitions texts).reverse name).or (file.defines.get? name)

theorem get?_given (file : Settings) (texts : List String) (name : String) :
    (file.given texts).defines.get? name = file.valueOf? texts name :=
  Bindings.get?_setAll file.defines (definitions texts) name

private theorem applyDefines_eq_given (file : Settings) {texts : List String}
    (wellFormed : ∀ text ∈ texts, (parseDefine? text).isSome) :
    file.applyDefines texts = (file.given texts, none) := by
  induction texts generalizing file with
  | nil => rfl
  | cons text texts ih =>
    obtain ⟨first, others⟩ := List.forall_mem_cons.mp wellFormed
    obtain ⟨⟨name, value⟩, parsed⟩ := Option.isSome_iff_exists.mp first
    have next : file.given (text :: texts) =
        given { file with defines := file.defines.set name value } texts := by
      simp only [given, definitions, List.filterMap_cons_some parsed]
      rfl
    rw [applyDefines, parsed, next]
    exact ih _ others

private theorem valueOf?_of_last (file : Settings) {texts : List String} {key value : String}
    {before after : List (String × String)}
    (divided : definitions texts = before ++ (key, value) :: after)
    (last : ∀ pair ∈ after, pair.1 ≠ key) : file.valueOf? texts key = some value := by
  have silent : Bindings.get? after.reverse key = none := by
    simpa [Bindings.get?] using last
  have found : Bindings.get? (definitions texts).reverse key = some value := by
    rw [divided, List.reverse_append, List.reverse_cons, Bindings.get?_append,
      Bindings.get?_append, silent, Bindings.get?_singleton, if_pos rfl]
    rfl
  rw [valueOf?, found, Option.some_or]

end Settings

private theorem Report.after_after (report : Report) (first second : List Notice) :
    (report.after second).after first = report.after (first ++ second) := by
  simp [Report.after]

namespace Invocation

/-- The table of a session maps a name to the value of the greatest of its spellings that have
one. -/
theorem get?_tableOf_given_iff {file : Settings} (ordered : file.defines.Ordered)
    (texts : List String) (name value : String) :
    (tableOf (file.given texts)).get? (Text.lowercase name) = some value ↔
      ∃ greatest, Text.lowercase greatest = Text.lowercase name ∧
        file.valueOf? texts greatest = some value ∧
        ∀ other, Text.lowercase other = Text.lowercase name →
          file.valueOf? texts other ≠ none → other ≤ greatest := by
  have ordered : (file.given texts).defines.Ordered := ordered.setAll _
  have table : tableOf (file.given texts) =
      Bindings.setAll [] (Bindings.renamed Text.lowercase (file.given texts).defines) := by
    rw [tableOf, Bindings.setAll, Bindings.renamed, List.foldl_map]
  have empty : Bindings.get? [] (Text.lowercase name) = none := rfl
  rw [table, Bindings.get?_setAll, empty, Option.or_none, ordered.get?_renamed_iff]
  refine exists_congr fun greatest => and_congr_right fun _ => ?_
  rw [← ordered.get?_eq_some_iff, Settings.get?_given]
  refine and_congr_right fun _ => ?_
  constructor <;> intro bound other
  · intro same held
    obtain ⟨held, found⟩ := Option.ne_none_iff_exists'.mp held
    rw [← Settings.get?_given, ordered.get?_eq_some_iff] at found
    exact bound _ found same
  · intro known same
    refine bound other.1 same ?_
    rw [← Settings.get?_given, ordered.get?_eq_some_iff.mpr known]
    exact Option.some_ne_none _

private theorem exists_session_of_settings (invocation : Invocation) (surroundings : Surroundings)
    {content : String}
    (readable : (invocation.storage surroundings).read invocation.sheet = .ok content)
    (settings : Settings) :
    ∃ session notices, session.site.scope.table = tableOf settings ∧
      ∀ work, invocation.withSettings surroundings settings work =
        (work settings session).after notices := by
  obtain ⟨sheet, entries, load⟩ : ∃ sheet entries,
      Sheet.load (invocation.storage surroundings) invocation.sheet = .ok (sheet, entries) := by
    rw [Sheet.load, readable]
    exact ⟨_, _, rfl⟩
  let scope : Scope :=
    { sheet := {}
      table := tableOf settings
      environment := Environment.ofVariables surroundings.environment }
  let session := Session.begin ⟨scope, invocation.storage surroundings⟩ sheet entries
  have begun : Session.load ⟨scope, invocation.storage surroundings⟩ invocation.sheet =
      .ok session := by
    rw [Session.load, load]
    rfl
  refine ⟨session, ?notices, rfl, ?works⟩
  case works =>
    intro work
    unfold withSettings
    dsimp only
    rw [begun]

/-- With settings that can be loaded, definitions that are well formed and a sheet that can be
read, the work is done on a session with the table of the settings as they are given. -/
theorem exists_session (invocation : Invocation) (surroundings : Surroundings) {file : Settings}
    {content : String}
    (config : (Settings.load (invocation.storage surroundings)
      (Settings.pathFor invocation.sheet invocation.config)).1 = .ok file)
    (readable : (invocation.storage surroundings).read invocation.sheet = .ok content)
    (wellFormed : ∀ text ∈ invocation.defines, (Settings.parseDefine? text).isSome) :
    ∃ session notices, session.site.scope.table = tableOf (file.given invocation.defines) ∧
      ∀ work, invocation.withSession surroundings work =
        (work (file.given invocation.defines) session).after notices := by
  obtain ⟨session, notices, table, works⟩ := invocation.exists_session_of_settings surroundings
    readable (file.given invocation.defines)
  refine ⟨session, ?notices, table, ?works⟩
  case works =>
    intro work
    unfold withSession
    dsimp only
    rw [config]
    dsimp only
    rw [Settings.applyDefines_eq_given file wellFormed]
    dsimp only
    rw [works, Report.after_after]

/-- A command in a directory with an empty sheet, and with settings that define one name. -/
def sample (defines : List String) : Invocation where
  command := .roles
  verbose := false
  sheet := ⟨"s"⟩
  config := some ⟨"c"⟩
  defines := defines
  baseDirectory := none

/-- What the sample finds around it. -/
def sampleSurroundings : Surroundings where
  disk := { nodes := [(["c"], .file "defines.o='f'".toByteArray), (["s"], .file "".toByteArray)] }
  environment := []
  logs := none
  version := ""

theorem read_sample (defines : List String) :
    ((sample defines).storage sampleSurroundings).read ⟨"s"⟩ = .ok "" := by
  have leads : sampleSurroundings.disk.locate ⟨"s"⟩ = .ok ["s"] := rfl
  exact Disk.read_of_file leads rfl

private theorem ofText_sample : Settings.ofText? "defines.o='f'" = some ⟨[("o", "f")], false⟩ := by
  have quoted : Settings.Atom.readQuoted '\x27' ['f', '\x27'] =
      some (.quoted ['f'] true, []) := by
    simp [Settings.Atom.readQuoted, Settings.Atom.unquote, Settings.Atom.isPlain]
  have done : Settings.Atom.ofChars [] = some [] := by rw [Settings.Atom.ofChars]
  have atoms : Settings.Atom.ofText "defines.o='f'" =
      some [.bare "defines".toList, .mark '.', .bare ['o'], .mark '=', .quoted ['f'] true] := by
    change Settings.Atom.ofChars
      ['d', 'e', 'f', 'i', 'n', 'e', 's', '.', 'o', '=', '\x27', 'f', '\x27'] = _
    simp [Settings.Atom.ofChars.eq_def (_ :: _), Settings.Atom.isSpace, Settings.Atom.isBare,
      Settings.Atom.isMark, List.takeWhile]
    split
    · simp_all
    · simp_all
  rw [Settings.ofText?, atoms]
  rfl

theorem load_sample (defines : List String) :
    (Settings.load ((sample defines).storage sampleSurroundings) ⟨"c"⟩).1 =
      .ok ⟨[("o", "f")], false⟩ := by
  have holds : ((sample defines).storage sampleSurroundings).holds ⟨"c"⟩ = true := rfl
  have leads : sampleSurroundings.disk.locate ⟨"c"⟩ = .ok ["c"] := rfl
  have read : ((sample defines).storage sampleSurroundings).read ⟨"c"⟩ =
      .ok "defines.o='f'" :=
    Disk.read_of_file leads rfl
  rw [Settings.load, if_pos holds, read]
  dsimp only
  rw [ofText_sample]

/-- The last definition of a name from the command line, in whatever case, is kept under its own
spelling; but the session goes by it only if it is the value of the greatest spelling that is
defined. -/
theorem define_wins_iff {invocation : Invocation} {surroundings : Surroundings} {file : Settings}
    {content name key value : String} {before after : List (String × String)}
    (config : (Settings.load (invocation.storage surroundings)
      (Settings.pathFor invocation.sheet invocation.config)).1 = .ok file)
    (readable : (invocation.storage surroundings).read invocation.sheet = .ok content)
    (wellFormed : ∀ text ∈ invocation.defines, (Settings.parseDefine? text).isSome)
    (divided : Settings.definitions invocation.defines = before ++ (key, value) :: after)
    (alike : Text.lowercase key = Text.lowercase name)
    (last : ∀ pair ∈ after, Text.lowercase pair.1 ≠ Text.lowercase name) :
    ∃ settings session notices,
      (∀ work, invocation.withSession surroundings work =
        (work settings session).after notices) ∧
      settings.defines.get? key = some value ∧
      (session.site.scope.table.get? (Text.lowercase name) = some value ↔
        ∃ greatest, Text.lowercase greatest = Text.lowercase name ∧ key ≤ greatest ∧
          file.valueOf? invocation.defines greatest = some value ∧
          ∀ other, Text.lowercase other = Text.lowercase name →
            file.valueOf? invocation.defines other ≠ none → other ≤ greatest) := by
  obtain ⟨session, notices, table, works⟩ :=
    invocation.exists_session surroundings config readable wellFormed
  have own : file.valueOf? invocation.defines key = some value := by
    refine file.valueOf?_of_last divided fun pair member same => last pair member ?_
    rw [same, alike]
  have held : file.valueOf? invocation.defines key ≠ none := by
    rw [own]
    exact Option.some_ne_none _
  refine ⟨file.given invocation.defines, session, notices, works, ?_, ?_⟩
  · rw [Settings.get?_given, own]
  rw [table, get?_tableOf_given_iff (Settings.ordered_load config)]
  refine exists_congr fun greatest => and_congr_right fun _ => ?_
  constructor
  · rintro ⟨found, bound⟩
    exact ⟨bound key alike held, found, bound⟩
  · rintro ⟨-, found, bound⟩
    exact ⟨found, bound⟩

theorem define_wins_iff_sample :
    ∃ settings session notices,
      (∀ work, (sample ["O=a", "o=b"]).withSession sampleSurroundings work =
        (work settings session).after notices) ∧
      session.site.scope.table.get? (Text.lowercase "O") = some "b" := by
  obtain ⟨settings, session, notices, works, -, wins⟩ :=
    @define_wins_iff (sample ["O=a", "o=b"]) sampleSurroundings ⟨[("o", "f")], false⟩ "" "O" "o"
      "b" [("O", "a")] [] (load_sample _) (read_sample _) (by decide) rfl rfl (by simp)
  refine ⟨settings, session, notices, works, wins.mpr ⟨"o", rfl, le_rfl, rfl, ?_⟩⟩
  intro other _ held
  have spelled : other = "o" ∨ other = "O" := by
    by_contra neither
    obtain ⟨small, capital⟩ := not_or.mp neither
    have given : Settings.definitions ["O=a", "o=b"] = [("O", "a"), ("o", "b")] := rfl
    apply held
    simp [Settings.valueOf?, sample, given, Bindings.get?, Ne.symm small, Ne.symm capital]
  rcases spelled with rfl | rfl
  · exact le_rfl
  · decide

/-- The definition of a settings file is kept against one from the command line whose name differs
in case and comes first in order. -/
theorem file_define_wins :
    ∃ settings session notices,
      (∀ work, (sample ["O=c"]).withSession sampleSurroundings work =
        (work settings session).after notices) ∧
      Settings.definitions ["O=c"] = [("O", "c")] ∧
      Text.lowercase "O" = Text.lowercase "o" ∧
      session.site.scope.table.get? (Text.lowercase "o") = some "f" := by
  obtain ⟨session, notices, table, works⟩ :=
    (sample ["O=c"]).exists_session sampleSurroundings (load_sample _) (read_sample _) (by decide)
  refine ⟨_, session, notices, works, rfl, rfl, ?_⟩
  rw [table]
  rfl

end Invocation

end PackageSheet
