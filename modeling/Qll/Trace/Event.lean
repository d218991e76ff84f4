import Qll.Json.Printer
import Qll.Text.Basic
import Qll.Trace.Level

/-!
# Events of a trace

An event is written as a line of text, indented by its scope, or as one value per line.
-/

namespace Qll.Trace

/-! ## Points in time

A point in time is a number of microseconds since the start of 1970. It is written as a date and a
time of day without offset.
-/

/-- A date of the calendar in use since 1582, also for years before. -/
structure Date where
  year : Int
  month : Nat
  day : Nat
  deriving DecidableEq, Inhabited

/-- The date of a number of days after the start of 1970. Years are counted from March on, so that
a leap day is the last of its year. -/
def Date.ofDays (days : Int) : Date :=
  let shifted := days + 719468
  let era := shifted.fdiv 146097
  let dayOfEra := (shifted - era * 146097).toNat
  let yearOfEra :=
    (dayOfEra - dayOfEra / 1460 + dayOfEra / 36524 - dayOfEra / 146096) / 365
  let dayOfYear := dayOfEra - (365 * yearOfEra + yearOfEra / 4 - yearOfEra / 100)
  let shiftedMonth := (5 * dayOfYear + 2) / 153
  let day := dayOfYear - (153 * shiftedMonth + 2) / 5 + 1
  let month := if shiftedMonth < 10 then shiftedMonth + 3 else shiftedMonth - 9
  let year := (yearOfEra : Int) + era * 400
  { year := if month ≤ 2 then year + 1 else year, month, day }

/-- A year has at least four digits. -/
def yearText (year : Int) : String :=
  if year < 0 then "-" ++ Text.decimalPadded 4 year.natAbs else Text.decimalPadded 4 year.natAbs

/-- The time of day of a number of seconds after midnight. -/
def clockText (seconds : Nat) : String :=
  Text.decimalPadded 2 (seconds / 3600) ++ ":" ++ Text.decimalPadded 2 (seconds / 60 % 60) ++ ":" ++
    Text.decimalPadded 2 (seconds % 60)

/-- Date and time of day, to the microsecond. -/
def stampText (micros : Int) : String :=
  let day := micros.fdiv 86400000000
  let rest := (micros - day * 86400000000).toNat
  let date := Date.ofDays day
  yearText date.year ++ "-" ++ Text.decimalPadded 2 date.month ++ "-" ++
    Text.decimalPadded 2 date.day ++ "T" ++ clockText (rest / 1000000) ++ "." ++
    Text.decimalPadded 6 (rest % 1000000) ++ "Z"

/-! ## Records -/

/-- One record of a trace. -/
structure Event where
  /-- Microseconds since the start of 1970. -/
  time : Int := 0
  sequence : Nat := 0
  kind : Kind
  scope : Scope
  span : Nat := 0
  /-- The surrounding span; zero without one. -/
  parent : Nat := 0
  name : String
  detail : String := ""
  extra : List (String × String) := []
  deriving DecidableEq, Inhabited

namespace Event

/-- The extra entries in the order of their keys. -/
def sortedExtra (e : Event) : List (String × String) :=
  e.extra.mergeSort fun a b => a.1 ≤ b.1

/-- The extra entries of a line of text. -/
def extraText (e : Event) : String :=
  if e.extra.isEmpty then ""
  else " \x7b" ++ Text.join ", " (e.sortedExtra.map fun (k, v) => k ++ "=" ++ v) ++ "\x7d"

/-- A line of text. -/
def text (e : Event) : String :=
  "#" ++ Text.padRight 6 (Nat.repr e.sequence) ++ " " ++
    Text.replicate (2 * (e.scope.rank - 1)) ' ' ++ e.kind.sign ++ e.name ++
    (if e.detail = "" then "" else " (" ++ e.detail ++ ")") ++ e.extraText ++ "\n"

/-- The fields of an event; a missing parent, detail or extra is left out. -/
def json (e : Event) : Json.Value :=
  .object <|
    [("time", .string (stampText e.time)), ("seq", .nat e.sequence), ("kind", .string e.kind.name),
      ("scope", .string e.scope.name), ("span_id", .nat e.span)] ++
    (if e.parent = 0 then [] else [("parent_id", .nat e.parent)]) ++
    [("name", .string e.name)] ++
    (if e.detail = "" then [] else [("detail", .string e.detail)]) ++
    (if e.extra.isEmpty then []
      else [("extra", .object (e.sortedExtra.map fun (k, v) => (k, .string v)))])

/-- An event in a format; text unless values are asked for. -/
def write (e : Event) (f : Format) : String :=
  match f with
  | .json => e.json.compact ++ "\n"
  | .auto | .text => e.text

end Event

end Qll.Trace
