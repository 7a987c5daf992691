import PackageSheet.Diagnostic.Journal

namespace PackageSheet

/-- Something that a command tells: a line of its result, the beginning of a stage, or a message
of some weight. -/
inductive Notice where
  | result (line : String)
  | stage (text : String)
  | info (text : String)
  | detail (text : String)
  | warning (text : String)
  | error (text : String)
  | diagnostic (d : Diagnostic)
deriving DecidableEq

namespace Notice

/-- The colours and weights of the screen. -/
inductive Style where
  | red
  | green
  | yellow
  | boldBlue
  | bold
  | faint

/-- The code that turns a style on. -/
def Style.code : Style → String
  | .red => "31"
  | .green => "32"
  | .yellow => "33"
  | .boldBlue => "1;34"
  | .bold => "1"
  | .faint => "2"

def styled (style : Style) (text : String) : String :=
  "\x1b[" ++ style.code ++ "m" ++ text ++ "\x1b[0m"

def ofEntry : JournalEntry → Notice
  | .diagnostic d => .diagnostic d
  | .note text => .detail text

/-- What a notice writes to the stream for results. -/
def output : Notice → String
  | .result line => line ++ "\n"
  | .stage text => styled .boldBlue "==>" ++ " " ++ styled .bold text ++ "\n"
  | .info text => "  " ++ text ++ "\n"
  | .detail _ | .warning _ | .error _ | .diagnostic _ => ""

/-- What a notice writes to the stream for errors. -/
def errorOutput : Notice → String
  | .diagnostic d =>
    styled (match d.severity with | .error => .red | .warning => .yellow) d.text ++ "\n"
  | .error text => styled .red "ERROR" ++ " " ++ text ++ "\n"
  | .warning text => styled .yellow "WARN" ++ "  " ++ text ++ "\n"
  | .result _ | .stage _ | .info _ | .detail _ => ""

/-- What is left of a text after the codes that style it, where one is open. -/
def plainFrom : Bool → List Char → List Char
  | _, [] => []
  | true, c :: cs => plainFrom (!('@' ≤ c && c ≤ '~')) cs
  | false, '\x1b' :: '[' :: cs => plainFrom true cs
  | false, '\x1b' :: _ :: cs => plainFrom false cs
  | false, '\x1b' :: [] => []
  | false, c :: cs => c :: plainFrom false cs

/-- A text without the codes that style it: an escape takes the character after it along, and an
opening bracket takes those up to the end of the code. -/
def plain (text : String) : String :=
  String.ofList (plainFrom false text.toList)

/-- What a notice writes to the log. Results are not logged. -/
def log : Notice → Option String
  | .result _ => none
  | .stage text => some ("==> " ++ plain text)
  | .info text => some ("    " ++ plain text)
  | .detail text => some ("    [debug] " ++ plain text)
  | .warning text => some ("    [warn] " ++ plain text)
  | .error text => some ("    [error] " ++ plain text)
  | .diagnostic d => some ("    " ++ plain d.text)

/-- What is told at the end of a command about the diagnostics of its work. -/
def summary (ds : List Diagnostic) (log : Option Path) : List Notice :=
  let tally := Tally.of ds
  let counts :=
    if tally.isClean then [.info (styled .green "✓ no problems found")]
    else
      (tally.byCode.map fun (code, count) => .info s!"{code.text}: {count}") ++
        [.info (styled .red s!"{tally.errors} error(s)" ++ ", " ++
          styled .yellow s!"{tally.warnings} warning(s)")]
  .stage "Summary" :: counts ++
    (log.map fun path => .info (styled .faint ("log: " ++ path.text))).toList

end Notice

end PackageSheet
