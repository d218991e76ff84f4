import Qll.Diagnostic.Bag
import Qll.Files.Path
import Qll.Json.Printer
import Qll.Text.Quoted

/-!
# Showing diagnostics

Three layouts: one line each, a coloured form with notes and a summary, and a JSON document. The
order of the bag is kept.
-/

namespace Qll.Diagnostic

open Source (Location)

/-- A layout of diagnostics. -/
inductive Format
  | short
  | pretty
  | json
  deriving DecidableEq, Inhabited

namespace Format

/-- The name of a layout. -/
def name : Format → String
  | short => "short"
  | pretty => "pretty"
  | json => "json"

/-- The layout with the given name, in letters of either case. -/
def parse? (s : String) : Option Format :=
  [short, pretty, json].find? fun f => f.name == Text.lower s

/-- What is said of a text that names no layout. -/
def unknown (s : String) : String :=
  "unknown diagnostics format " ++ Text.quote s ++ " (want short, pretty or json)"

end Format

/-- How paths are shown. -/
inductive PathMode
  | asWritten
  | absolute (here : String)
  | base
  deriving Inhabited

/-- The mode with a name, for a working directory; any other name leaves paths as they are. -/
def PathMode.ofName (here : String) : String → PathMode
  | "basename" => base
  | "absolute" => absolute here
  | _ => asWritten

/-- A path in the given mode. -/
def PathMode.show : PathMode → String → String
  | asWritten, file => file
  | absolute here, file => Files.Path.absolute here file
  | base, file => Files.Path.base file

/-- What is shown. -/
structure RenderOptions where
  color : Bool := false
  paths : PathMode := .asWritten
  notes : Bool := true
  /-- How many diagnostics are shown; all, unless positive. -/
  limit : Int := 0

/-- How many of `n` diagnostics are shown. -/
def RenderOptions.shown (o : RenderOptions) (n : Nat) : Nat :=
  if 0 < o.limit ∧ o.limit < n then o.limit.toNat else n

/-- Terminal attributes: the number that starts one, and the number that ends it. -/
structure Paint where
  start : List Nat
  stop : List Nat

namespace Paint

/-- Bold letters in a foreground colour. -/
def boldColor (n : Nat) : Paint := ⟨[n, 1], [0, 22]⟩

/-- A foreground colour. -/
def color (n : Nat) : Paint := ⟨[n], [0]⟩

/-- Bold letters. -/
def bold : Paint := ⟨[1], [22]⟩

/-- Faint letters. -/
def faint : Paint := ⟨[2], [22]⟩

/-- The control sequence that sets some attributes. -/
def sequence (numbers : List Nat) : String :=
  "\x1b[" ++ Text.join ";" (numbers.map Nat.repr) ++ "m"

/-- A painted text; without colour it stays plain. -/
def apply (p : Paint) (enabled : Bool) (s : String) : String :=
  if enabled then sequence p.start ++ s ++ sequence p.stop else s

/-- Foreground colours by their numbers. -/
def red : Nat := 31
def green : Nat := 32
def yellow : Nat := 33
def blue : Nat := 34
def cyan : Nat := 36

end Paint

/-- Errors are red, warnings yellow, all else cyan. -/
def Severity.paint (s : Severity) : Paint :=
  if s = .error then .boldColor Paint.red
  else if s = .warning then .boldColor Paint.yellow
  else .boldColor Paint.cyan

/-- A location in a path mode; the nameless file stays nameless. -/
def showLocation (mode : PathMode) : Option Location → String
  | none => ""
  | some l =>
    if l.file = "" then l.text else { l with file := mode.show l.file : Location }.text

/-- A place followed by a colon, or nothing. -/
def place (text : String) (painted : String) : String :=
  if text = "" then "" else painted ++ ": "

/-- One note of the coloured form. -/
def prettyNote (o : RenderOptions) (n : Note) : String :=
  let at' := showLocation o.paths n.location
  "  = " ++ (Paint.color Paint.blue).apply o.color "note" ++ ": " ++ place at' at' ++ n.message ++
    "\n"

/-- One diagnostic of the coloured form. -/
def prettyItem (o : RenderOptions) (d : Diagnostic) : String :=
  let at' := showLocation o.paths d.location
  place at' (Paint.bold.apply o.color at') ++
    d.severity.paint.apply o.color d.severity.name ++ " " ++
    Paint.faint.apply o.color d.code.id ++ ": " ++ d.message ++ "\n" ++
    (if o.notes then String.join (d.notes.map (prettyNote o)) else "")

/-- The coloured form: the diagnostics, how many are hidden, and the summary. -/
def pretty (b : Bag) (o : RenderOptions) : String :=
  let n := o.shown b.size
  let hidden := b.size - n
  String.join ((b.items.take n).map (prettyItem o)) ++
    (if 0 < hidden then "... and " ++ Nat.repr hidden ++ " more\n" else "") ++
    (if b.summary = "" then "" else b.summary ++ "\n")

/-- One note of the short form. -/
def shortNote (n : Note) : String :=
  match n.location with
  | none => "  note: " ++ n.message ++ "\n"
  | some l => "  note: " ++ l.text ++ ": " ++ n.message ++ "\n"

/-- The short form: one line per diagnostic, then its notes. -/
def short (b : Bag) (notes : Bool) : String :=
  String.join <| b.items.map fun d =>
    d.text ++ "\n" ++ (if notes then String.join (d.notes.map shortNote) else "")

/-- The location field of a JSON object; a missing location has none. -/
def locationFields (mode : PathMode) : Option Location → List (String × Json.Value)
  | none => []
  | some l =>
    [("location", .object
      [("file", .string (mode.show l.file)), ("line", .int l.line), ("column", .int l.column)])]

/-- A diagnostic as a JSON object. -/
def jsonItem (o : RenderOptions) (d : Diagnostic) : Json.Value :=
  let notes := if o.notes then d.notes else []
  .object <|
    [("severity", .string d.severity.name), ("code", .string d.code.id),
      ("title", .string d.code.title), ("message", .string d.message)] ++
      locationFields o.paths d.location ++
      (if notes.isEmpty then []
      else [("notes", .array (notes.map fun n =>
        .object (("message", .string n.message) :: locationFields o.paths n.location)))])

/-- The JSON document. The counts are those of the whole bag. -/
def document (b : Bag) (o : RenderOptions) : Json.Value :=
  .object
    [("diagnostics", .array ((b.items.take (o.shown b.size)).map (jsonItem o))),
      ("count", .nat b.size), ("errors", .nat (b.count .error)),
      ("warnings", .nat (b.count .warning))]

/-- The JSON document as text. -/
def jsonText (b : Bag) (o : RenderOptions) : String :=
  (document b o).indented 0 ++ "\n"

/-- A bag in a layout. -/
def render (format : Format) (b : Bag) (o : RenderOptions) : String :=
  match format with
  | .short => short b o.notes
  | .pretty => pretty b o
  | .json => jsonText b o

end Qll.Diagnostic
