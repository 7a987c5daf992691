import PackageSheet.Path

/-!
What the arguments of the program ask for. They are read from left to right, first for the program
itself and, after the name of a command, for that command; an option that waits for its value takes
the next argument that does not look like an option.
-/

namespace PackageSheet

/-- What the program can be asked to do. -/
inductive Command where
  | tokens
  | files (lists : List String) (json : Bool)
  | eval (macros : List String) (expand : Bool)
  | roles
  | check
  | version
deriving DecidableEq

/-- What the arguments of the program ask for. -/
structure Invocation where
  command : Command
  verbose : Bool
  sheet : Path
  config : Option Path
  defines : List String
  baseDirectory : Option Path
deriving DecidableEq

namespace Invocation

/-- The names of commands. -/
inductive CommandName where
  | tokens
  | files
  | eval
  | roles
  | check
  | version
deriving DecidableEq

namespace CommandName

def all : List CommandName :=
  [.tokens, .files, .eval, .roles, .check, .version]

/-- The word for a command. -/
def text : CommandName → String
  | .tokens => "tokens"
  | .files => "files"
  | .eval => "eval"
  | .roles => "roles"
  | .check => "check"
  | .version => "version"

def ofText? (word : String) : Option CommandName :=
  all.find? (·.text == word)

def takesWords : CommandName → Bool
  | .files | .eval => true
  | _ => false

end CommandName

/-- Why arguments ask for nothing that can be done: they ask for help or the version, or they are
wrong. -/
inductive Refusal where
  | helpAsked
  | versionAsked
  | nothingAsked
  | missingCommand
  | unknownCommand
  | unknownOption
  | missingWord
  | badValue
  | uselessValue
  | repeated
deriving DecidableEq

/-- The options. -/
inductive Opt where
  | verbose
  | sheet
  | config
  | define
  | baseDirectory
  | json
  | expand
  | help
  | version
deriving DecidableEq

namespace Opt

def takesValue : Opt → Bool
  | .sheet | .config | .define | .baseDirectory => true
  | _ => false

/-- The options for the program itself or for a command. -/
def allowed : Option CommandName → List Opt
  | none => [.verbose, .sheet, .config, .baseDirectory, .help, .define, .version]
  | some .files => [.verbose, .sheet, .config, .baseDirectory, .help, .json]
  | some .eval => [.verbose, .sheet, .config, .baseDirectory, .help, .expand]
  | some _ => [.verbose, .sheet, .config, .baseDirectory, .help]

/-- The long name of an option. -/
def long : Opt → String
  | .verbose => "verbose"
  | .sheet => "sheet"
  | .config => "config"
  | .define => "define"
  | .baseDirectory => "base-dir"
  | .json => "json"
  | .expand => "expand"
  | .help => "help"
  | .version => "version"

/-- The short name of an option. -/
def short? : Opt → Option Char
  | .verbose => some 'v'
  | .sheet => some 's'
  | .config => some 'c'
  | .define => some 'D'
  | .help => some 'h'
  | .version => some 'V'
  | .baseDirectory | .json | .expand => none

end Opt

/-- An option that is not settled: it waits for its value, or the value was not looked at. -/
inductive Pending where
  | waiting (option : Opt)
  | supplied (option : Opt) (value : String)

/-- What was given to the program or to a command. -/
structure Given where
  flags : List Opt := []
  values : List (Opt × String) := []
  words : List String := []
  pending : Option Pending := none

namespace Given

/-- Whether an option waits for its value. -/
def isWaiting (given : Given) : Bool :=
  match given.pending with
  | some (.waiting _) => true
  | _ => false

def has (given : Given) (option : Opt) : Bool :=
  given.values.any (·.1 == option)

def value? (given : Given) (option : Opt) : Option String :=
  (given.values.find? (·.1 == option)).map (·.2)

def allValues (given : Given) (option : Opt) : List String :=
  (given.values.filter (·.1 == option)).map (·.2)

/-- Give a value to an option. Only definitions may be repeated and empty. -/
def put (given : Given) (option : Opt) (value : String) : Except Refusal Given :=
  if option ≠ .define ∧ given.has option then .error .repeated
  else if option ≠ .define ∧ value = "" then .error .badValue
  else .ok { given with values := given.values ++ [(option, value)] }

/-- Settle the pending option. -/
def settle (given : Given) : Except Refusal Given :=
  match given.pending with
  | none => .ok given
  | some (.waiting _) => .error .badValue
  | some (.supplied option value) => { given with pending := none }.put option value

/-- Give an option without a value. -/
def flag (given : Given) (option : Opt) : Except Refusal Given := do
  let settled ← given.settle
  match option with
  | .help => throw .helpAsked
  | .version => throw .versionAsked
  | option =>
    if settled.flags.contains option then throw .repeated
    else return { settled with flags := settled.flags ++ [option] }

/-- Give an option that takes a value, with the value if it is attached. -/
def valued (given : Given) (option : Opt) (attached : Option String) : Except Refusal Given := do
  let settled ← given.settle
  match attached with
  | some value => settled.put option value
  | none => return { settled with pending := some (.waiting option) }

/-- Give a value to the option that waits for it. -/
def supply (given : Given) (value : String) : Given :=
  match given.pending with
  | some (.waiting option) => { given with pending := some (.supplied option value) }
  | _ => given

/-- Give an option by its long name, with what follows an equals sign. -/
def long (given : Given) (allowed : List Opt) (name : String) (attached : Option String) :
    Except Refusal Given :=
  match allowed.find? (·.long == name) with
  | none => .error .unknownOption
  | some option =>
    if option.takesValue then given.valued option attached
    else if attached.isSome then .error .uselessValue
    else given.flag option

/-- Give options by their short names. What follows one that takes a value is its value. -/
def shorts (given : Given) (allowed : List Opt) : List Char → Except Refusal Given
  | [] => .ok given
  | c :: cs =>
    match allowed.find? (·.short? == some c) with
    | none => .error .unknownOption
    | some option =>
      if option.takesValue then
        match cs with
        | [] => given.valued option none
        | '=' :: value => given.valued option (some (String.ofList value))
        | value => given.valued option (some (String.ofList value))
      else do
        let next ← given.flag option
        next.shorts allowed cs

/-- Give an argument that looks like an option; `none` if it does not. -/
def option? (given : Given) (allowed : List Opt) (argument : String) :
    Option (Except Refusal Given) :=
  match argument.toList with
  | '-' :: '-' :: cs =>
    let name := String.ofList (cs.takeWhile (· != '='))
    let attached := match cs.dropWhile (· != '=') with
      | _ :: value => some (String.ofList value)
      | [] => none
    some (given.long allowed name attached)
  | '-' :: c :: cs => some (given.shorts allowed (c :: cs))
  | _ => none

end Given

def helpWord : String := "help"

def isCommandWord (word : String) : Bool :=
  word == helpWord || (CommandName.ofText? word).isSome

/-- Give a word that belongs to no option. The program itself takes the name of a command, but not
after two dashes; of the commands, some take words. -/
def giveWord (level : Option CommandName) (afterDashes : Bool) (given : Given) (word : String) :
    Except Refusal Given :=
  match level with
  | none =>
    .error (if afterDashes && isCommandWord word then .unknownOption else .unknownCommand)
  | some name =>
    if name.takesWords then
      given.settle.map fun settled => { settled with words := settled.words ++ [word] }
    else .error .unknownOption

/-- Read arguments up to the name of a command, if one is awaited, or to their end. The name comes
back with the arguments after it. -/
def read (level : Option CommandName) (afterDashes : Bool) (given : Given) :
    List String → Except Refusal (Given × Option (String × List String))
  | [] => .ok (given, none)
  | argument :: arguments =>
    if afterDashes then do
      let next ← giveWord level true given argument
      read level true next arguments
    else if level.isNone && !given.isWaiting && isCommandWord argument then
      .ok (given, some (argument, arguments))
    else if argument = "--" then read level true given arguments
    else
      match given.option? (Opt.allowed level) argument with
      | some next => do read level false (← next) arguments
      | none =>
        if given.isWaiting then read level false (given.supply argument) arguments
        else do
          let next ← giveWord level false given argument
          read level false next arguments

/-- The answer to a request for help, perhaps about one command. -/
def help : List String → Refusal
  | [] => .helpAsked
  | [word] => if isCommandWord word then .helpAsked else .unknownCommand
  | _ => .unknownCommand

def defaultSheet : String := "package.sheet"

/-- The command of a name with what was given to it. -/
def toCommand (name : CommandName) (given : Given) : Except Refusal Command :=
  match name with
  | .tokens => .ok .tokens
  | .files => .ok (.files given.words (given.flags.contains .json))
  | .eval =>
    if given.words.isEmpty then .error .missingWord
    else .ok (.eval given.words (given.flags.contains .expand))
  | .roles => .ok .roles
  | .check => .ok .check
  | .version => .ok .version

/-- Put together what was given to the program and to its command, whose options hold. -/
def assemble (command : Command) (program given : Given) : Invocation :=
  let path? (option : Opt) : Option Path :=
    ((given.value? option).or (program.value? option)).map Path.mk
  { command
    verbose := program.flags.contains .verbose || given.flags.contains .verbose
    sheet := (path? .sheet).getD ⟨defaultSheet⟩
    config := path? .config
    defines := program.allValues .define
    baseDirectory := path? .baseDirectory }

/-- What the arguments of the program ask for. A command is read to its end before the last option
in front of it is settled. -/
def ofArguments (arguments : List String) : Except Refusal Invocation := do
  let (program, found) ← read none false {} arguments
  match found with
  | none =>
    let settled ← program.settle
    throw (if settled.flags.isEmpty && settled.values.isEmpty then .nothingAsked
      else .missingCommand)
  | some (word, rest) =>
    match CommandName.ofText? word with
    | none => throw (help rest)
    | some name =>
      let (given, _) ← read (some name) false {} rest
      let given ← given.settle
      let command ← toCommand name given
      let program ← program.settle
      return assemble command program given

end Invocation

end PackageSheet
