import Qll.Command.Flag
import Qll.Release.Version
import Qll.Text.Basic
import Qll.Text.Utf8

/-!
# Command lines

A command line names a command, which may stand between flags, and goes on with flags and arguments
in any order; after `--` everything is an argument. A flag is written `--name=value`, `--name value`
or, with a letter, `-lvalue` or `-l value`; letters of switches can be put together.
-/

namespace Qll.Command

/-- A command. -/
inductive Verb
  | check
  | build
  | watch
  | version
  | help
  | completion
  deriving DecidableEq, Inhabited

namespace Verb

/-- The name of a command. -/
def name : Verb → String
  | check => "check"
  | build => "build"
  | watch => "watch"
  | version => "version"
  | help => "help"
  | completion => "completion"

/-- All commands. -/
def all : List Verb := [check, build, watch, version, help, completion]

/-- The command with a name. -/
def ofName? (s : String) : Option Verb := all.find? (·.name == s)

/-- What a command does. -/
def purpose : Verb → String
  | check => "Check units without generating code"
  | build => "Compile units into assembler directives"
  | watch => "Rebuild whenever an input changes"
  | version => "Show the compiler version"
  | help => "Help about any command"
  | completion => "Generate the autocompletion script for the specified shell"

end Verb

/-- The flags of every command. -/
def commonFlags : List Flag :=
  [{ name := "color", purpose := "colorize output (auto|on|off)" },
    { name := "quiet", kind := .switch, purpose := "suppress non-essential output" },
    { name := "timings", kind := .switch, purpose := "show stage timings" },
    { name := "max-diagnostics", kind := .number,
      purpose := "maximum number of diagnostics to collect (0 for no limit)" },
    { name := "trace", purpose := "write a trace to this file (- for stderr)" },
    { name := "trace-level", purpose := "trace level (off|error|phase|detail|debug)" },
    { name := "ui", purpose := "stage progress view (auto|on|off)" },
    { name := "diagnostics-format", purpose := "diagnostics output (short|pretty|json)" },
    { name := "cpuprofile", purpose := "write a CPU profile to this file" },
    { name := "memprofile", purpose := "write a heap profile to this file" },
    { name := "runtime-trace", purpose := "write a runtime trace to this file" }]

/-- The flag that asks for help. -/
def helpFlag : Flag := { name := "help", letter := some 'h', kind := .switch, purpose := "help" }

/-- The flags that only the commands which write output have. -/
def outputFlags : List Flag :=
  [{ name := "output", letter := some 'o',
      purpose := "write directives to this file (default stdout)" },
    { name := "library", kind := .switch,
      purpose := "link a library: export global::$initialize, no entry point" },
    { name := "entry", purpose := "entry function" },
    { name := "format", purpose := "directive output format (text|msgpack)" },
    { name := "emit-live", kind := .switch, purpose := "print the live declarations" },
    { name := "export", kind := .texts, purpose := "extra liveness roots" }]

/-- The flags that only some command has. -/
def ownFlags : Option Verb → List Flag
  | some .build | some .watch => outputFlags
  | some .version => [{ name := "format", purpose := "output format (pretty|json)" }]
  | none => [{ name := "version", letter := some 'v', kind := .switch, purpose := "version" }]
  | _ => []

/-- What is wrong with a command line. -/
inductive UsageError
  /-- There is no such command; some names are close. -/
  | unknownCommand (name : String) (path : String) (close : List String)
  | badSyntax (argument : String)
  | unknownFlag (name : String)
  | unknownLetter (letter : Char) (letters : String)
  | noValue (argument : String)
  | noLetterValue (letter : Char) (letters : String)
  | badValue (flag : Flag) (value : String) (cause : String)
  deriving DecidableEq, Inhabited

/-- A letter between single quotes. -/
def quoteLetter (c : Char) : String :=
  if c = '\'' then "'\\''"
  else if c = '"' then "'\"'"
  else "'" ++ Text.quoteChar c ++ "'"

/-- The wording of an error. -/
def UsageError.message : UsageError → String
  | unknownCommand name path close =>
    "unknown command " ++ Text.quote name ++ " for " ++ Text.quote path ++
      (if close.isEmpty then ""
      else "\n\nDid you mean this?\n" ++ String.join (close.map fun n => "\t" ++ n ++ "\n"))
  | badSyntax argument => "bad flag syntax: " ++ argument
  | unknownFlag name => "unknown flag: --" ++ name
  | unknownLetter letter letters =>
    "unknown shorthand flag: " ++ quoteLetter letter ++ " in -" ++ letters
  | noValue argument => "flag needs an argument: " ++ argument
  | noLetterValue letter letters =>
    "flag needs an argument: " ++ quoteLetter letter ++ " in -" ++ letters
  | badValue flag value cause =>
    "invalid argument " ++ Text.quote value ++ " for " ++ Text.quote flag.shown ++ " flag: " ++
      cause

/-! ## Finding the command -/

/-- Whether an argument is a flag whose value is the next argument, as far as the given flags are
known. -/
def takesNext (flags : List Flag) (s : String) : Bool :=
  if s.contains '=' then false
  else
    match s.toList with
    | '-' :: '-' :: name => !(flags.any fun f => f.name == String.ofList name && f.isSwitch)
    | ['-', c] =>
      c.toNat < 128 && !(flags.any fun f => f.letter == some c && f.isSwitch)
    | _ => false

/-- The arguments that are neither flags nor their values. -/
def positional (flags : List Flag) : List String → List String
  | [] => []
  | s :: rest =>
    if s = "--" then []
    else if takesNext flags s then
      match rest with
      | _ :: next :: more => positional flags (next :: more)
      | _ => []
    else if s ≠ "" ∧ !Text.startsWith s "-" then s :: positional flags rest
    else positional flags rest

/-- The arguments without the first one that is `name` and not the value of a flag. -/
def dropName (flags : List Flag) (name : String) : List String → List String
  | [] => []
  | s :: rest =>
    if s = "--" then s :: rest
    else if takesNext flags s then
      match rest with
      | value :: more => s :: value :: dropName flags name more
      | [] => [s]
    else if s = name then rest
    else s :: dropName flags name rest

/-- The commands whose names are close to a word: at most two letters differ, or the word begins the
name. -/
def closeNames (word : String) : List String :=
  let word := Text.lower word
  ([Verb.check, .build, .watch, .version, .completion].map Verb.name).filter fun name =>
    Text.distance (Text.toBytes word) (Text.toBytes name) ≤ 2 || Text.startsWith name word

/-- The command of a command line, and the line without its name. A line without arguments has
none. -/
def findVerb (args : List String) : Except UsageError (Option Verb × List String) :=
  match positional commonFlags args with
  | [] => .ok (none, args)
  | name :: _ =>
    match Verb.ofName? name with
    | some verb => .ok (some verb, dropName commonFlags name args)
    | none => .error (.unknownCommand name Release.tool (closeNames name))

/-! ## Reading the flags -/

/-- What a command line says besides the command. -/
structure Parsed where
  given : Given := []
  arguments : List String := []
  deriving Inhabited

/-- Sets a flag. -/
def Parsed.set (p : Parsed) (f : Flag) (value : String) : Except UsageError Parsed :=
  match f.kind.read value with
  | .ok v => .ok { p with given := (f.name, v) :: p.given }
  | .error cause => .error (.badValue f value cause)

/-- What is left to do after an argument: either nothing, or a flag waits for its value. -/
inductive Pending
  | settled (p : Parsed)
  | awaits (p : Parsed) (f : Flag) (missing : UsageError)

/-- Reads an argument that starts with two dashes. -/
def readLong (flags : List Flag) (p : Parsed) (s : String) : Except UsageError Pending :=
  let body := s.toList.drop 2
  if body.isEmpty || body.head? == some '-' || body.head? == some '=' then .error (.badSyntax s)
  else
    let (name, value) := Release.cut '=' body
    let name := String.ofList name
    match flags.find? (·.name == name), value with
    | none, _ => .error (.unknownFlag name)
    | some f, some value => return .settled (← p.set f (String.ofList value))
    | some f, none =>
      if f.isSwitch then return .settled (← p.set f "true")
      else return .awaits p f (.noValue s)

/-- The character of the first byte of a letter, by which messages name it. -/
def leadByte (c : Char) : Char := Char.ofNat ((Text.toBytes c.toString).headD 0).toNat

/-- Reads letters; each is a switch, or a flag whose value is the rest or the next argument. -/
def readLetters (flags : List Flag) (p : Parsed) : List Char → Except UsageError Pending
  | [] => .ok (.settled p)
  | c :: rest =>
    let letters := String.ofList (c :: rest)
    match flags.find? (·.letter == some c) with
    | none => .error (.unknownLetter (leadByte c) letters)
    | some f =>
      match rest with
      | '=' :: d :: value => do return .settled (← p.set f (String.ofList (d :: value)))
      | _ =>
        if f.isSwitch then do readLetters flags (← p.set f "true") rest
        else if rest.isEmpty then .ok (.awaits p f (.noLetterValue c letters))
        else do return .settled (← p.set f (String.ofList rest))

/-- Reads flags and arguments. -/
def readArguments (flags : List Flag) (p : Parsed) : List String → Except UsageError Parsed
  | [] => .ok p
  | s :: rest =>
    if s = "--" then .ok { p with arguments := p.arguments ++ rest }
    else if !Text.startsWith s "-" || s = "-" then
      readArguments flags { p with arguments := p.arguments ++ [s] } rest
    else do
      let pending ←
        if Text.startsWith s "--" then readLong flags p s
        else readLetters flags p (s.toList.drop 1)
      match pending, rest with
      | .settled p, rest => readArguments flags p rest
      | .awaits p f _, value :: rest => readArguments flags (← p.set f value) rest
      | .awaits _ _ missing, [] => .error missing

/-- What is asked of the program. -/
inductive Request
  | help (verb : Option Verb)
  | number
  | run (verb : Verb) (parsed : Parsed)
  deriving Inhabited

/-- The request of a command line. -/
def parse (args : List String) : Except UsageError Request := do
  let (verb, args) ← findVerb args
  let p ← readArguments (commonFlags ++ helpFlag :: ownFlags verb) {} args
  if p.given.isOn helpFlag.name then return .help verb
  match verb with
  | none => if p.given.isOn "version" then return .number else return .help none
  | some .help | some .completion => return .help none
  | some .version =>
    match p.arguments with
    | [] => return .run .version p
    | extra :: _ =>
      throw (.unknownCommand extra (Release.tool ++ " " ++ Verb.version.name) [])
  | some verb => return .run verb p

/-- The lines of some flags. -/
def flagLines (flags : List Flag) : String :=
  String.join (flags.map fun f => "  " ++ Text.padRight 24 f.shown ++ f.purpose ++ "\n")

/-- A short guide to the commands and their flags. -/
def guide (verb : Option Verb) : String :=
  match verb with
  | none =>
    "Usage:\n  " ++ Release.tool ++ " [command]\n\nCommands:\n" ++
      String.join (Verb.all.map fun v => "  " ++ Text.padRight 12 v.name ++ v.purpose ++ "\n") ++
      "\nFlags:\n" ++ flagLines (ownFlags none ++ helpFlag :: commonFlags)
  | some v =>
    v.purpose ++ "\n\nUsage:\n  " ++ Release.tool ++ " " ++ v.name ++ " [flags]\n\nFlags:\n" ++
      flagLines (ownFlags (some v) ++ helpFlag :: commonFlags)

end Qll.Command
