import Qll.Number.Literal
import Qll.Text.Quoted
import Qll.Text.Record

/-!
# Flags

A flag has a long name and perhaps a letter. A switch needs no value; all other flags do.
-/

namespace Qll.Command

/-- What the value of a flag is. -/
inductive FlagKind
  | switch
  | number
  | text
  /-- Texts separated by commas; a repeated flag adds to them. -/
  | texts
  deriving DecidableEq, Inhabited

/-- A flag. -/
structure Flag where
  name : String
  letter : Option Char := none
  kind : FlagKind := .text
  /-- What the flag is for. -/
  purpose : String := ""
  deriving DecidableEq, Inhabited

/-- Whether a flag stands for itself, without a value. -/
def Flag.isSwitch (f : Flag) : Bool := f.kind == .switch

/-- A flag as messages name it. -/
def Flag.shown (f : Flag) : String :=
  match f.letter with
  | some c => "-" ++ c.toString ++ ", --" ++ f.name
  | none => "--" ++ f.name

/-- The value of a flag. -/
inductive FlagValue
  | switch (on : Bool)
  | number (n : Int)
  | text (s : String)
  | texts (items : List String)
  deriving DecidableEq, Inhabited

/-- The texts that mean on and off. -/
def parseSwitch? (s : String) : Option Bool :=
  if ["1", "t", "T", "TRUE", "true", "True"].contains s then some true
  else if ["0", "f", "F", "FALSE", "false", "False"].contains s then some false
  else none

/-- Reads the value of a flag, or says what is wrong with it. -/
def FlagKind.read (kind : FlagKind) (s : String) : Except String FlagValue :=
  match kind with
  | .switch =>
    match parseSwitch? s with
    | some on => .ok (.switch on)
    | none => .error ("strconv.ParseBool: parsing " ++ Text.quote s ++ ": invalid syntax")
  | .number =>
    match Number.parseLiteral s with
    | .ok n => .ok (.number n)
    | .error e => .error ("strconv.ParseInt: parsing " ++ Text.quote s ++ ": " ++ e.message)
  | .text => .ok (.text s)
  | .texts =>
    if s = "" then .ok (.texts [])
    else
      match Text.firstRecord s with
      | .ok items => .ok (.texts items)
      | .error e => .error e.message

/-- The flags given on a command line, the latest first. -/
abbrev Given := List (String × FlagValue)

namespace Given

/-- Whether a flag is given. -/
def has (g : Given) (name : String) : Bool := (g.lookup name).isSome

/-- The text of a flag, if it is given. -/
def text? (g : Given) (name : String) : Option String :=
  match g.lookup name with
  | some (.text s) => some s
  | _ => none

/-- The text of a flag. -/
def text (g : Given) (name default : String) : String := (g.text? name).getD default

/-- Whether a switch is on, if it is given. -/
def switch? (g : Given) (name : String) : Option Bool :=
  match g.lookup name with
  | some (.switch on) => some on
  | _ => none

/-- Whether a switch is on. -/
def isOn (g : Given) (name : String) : Bool := (g.switch? name).getD false

/-- The number of a flag, if it is given. -/
def number? (g : Given) (name : String) : Option Int :=
  match g.lookup name with
  | some (.number n) => some n
  | _ => none

/-- All texts of a flag, in the order in which they are given. -/
def texts (g : Given) (name : String) : List String :=
  (g.reverse.filterMap fun (n, v) =>
    match v with
    | .texts items => if n = name then some items else none
    | _ => none).flatten

end Given

end Qll.Command
