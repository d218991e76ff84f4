import Qll.Compilation.Stage
import Qll.Number.Binary
import Qll.Text.Width

/-!
# The progress of a compilation on the screen

A view has a title with a spinner, a row for each stage, and a bar. The bar follows the share of
stages that are over like a weight on a spring without overshooting, one frame at a time.
-/

namespace Qll.Progress

/-- The row of a stage. -/
structure Row where
  stage : String
  status : String := "queued"
  detail : String := ""
  /-- Nanoseconds. -/
  elapsed : Int := 0
  deriving DecidableEq, Inhabited

/-- Whether the stage of a row is over; one that was left out counts as well. -/
def Row.isOver (r : Row) : Bool :=
  r.status ≠ "queued" && r.status ≠ Compilation.Status.working.name

/-- The bar. -/
structure Bar where
  /-- The share it shows. -/
  shown : Float := 0
  /-- The share it moves to. -/
  target : Float := 0
  velocity : Float := 0
  /-- Whether the next frame moves it. -/
  moving : Bool := false
  deriving Inhabited

namespace Bar

/-- The time between two frames, in seconds. -/
def frameTime : Float := 0.016666666

/-- The frequency of the spring. -/
def frequency : Float := 18

/-- Moves the bar by one frame, or ends its movement once it is at rest. -/
def frame (b : Bar) : Bar :=
  if !b.moving then b
  else if Float.abs (b.shown - b.target) < 0.001 && b.velocity < 0.01 then
    { b with moving := false }
  else
    let decay := Float.exp (-frequency * frameTime)
    let time := frameTime * decay
    let factor := time * frequency
    let old := b.shown - b.target
    { b with
      shown := old * (factor + decay) + b.velocity * time + b.target,
      velocity := old * (-frequency * factor) + b.velocity * (-factor + decay) }

/-- Sends the bar to a share. -/
def aim (b : Bar) (share : Float) : Bar := { b with target := share, moving := true }

/-- The share, between nothing and all. -/
def clamp (share : Float) : Float :=
  if share < 0 then 0 else if 1 < share then 1 else share

/-- The bar in some cells: the share in full blocks, then its percentage. -/
def draw (width : Int) (share : Float) : String :=
  let label := " " ++ Text.padLeft 3 (Number.fixed 0 (clamp share * 100)) ++ "%"
  let total := (width - label.length).toNat
  let full := min total (Number.nearest (Float.ofNat total * share))
  Text.replicate full '█' ++ Text.replicate (total - full) '░' ++ label

end Bar

/-- The view. -/
structure View where
  title : String
  rows : List Row
  /-- The stage at work. -/
  current : String := ""
  /-- The width of the screen. -/
  width : Int := 80
  done : Bool := false
  ticks : Nat := 0
  bar : Bar := {}
  deriving Inhabited

/-- A change of a stage as the view learns of it. -/
structure Change where
  stage : String
  status : String
  detail : String := ""
  elapsed : Int := 0
  deriving Inhabited

namespace View

/-- The view before the first stage. -/
def create (title : String) (stages : List String) : View :=
  { title, rows := stages.map fun stage => { stage } }

/-- The share of the stages that are over. -/
def share (v : View) : Float :=
  if v.rows.isEmpty then 1
  else Float.ofNat (v.rows.countP Row.isOver) / Float.ofNat v.rows.length

/-- A row after a change; without a new detail it keeps the old one. -/
def updateRow (r : Row) (c : Change) : Row :=
  { r with
    status := c.status,
    detail := if c.detail = "" then r.detail else c.detail,
    elapsed := c.elapsed }

/-- Changes the last row of a stage, given the rows in reverse. -/
def updateFirst (c : Change) : List Row → List Row
  | [] => []
  | r :: rest => if r.stage = c.stage then updateRow r c :: rest else r :: updateFirst c rest

/-- Takes note of a change; one of an unknown stage is ignored. -/
def change (v : View) (c : Change) : View :=
  if v.rows.any (·.stage == c.stage) then
    let rows := (updateFirst c v.rows.reverse).reverse
    let current := if c.status = Compilation.Status.working.name then c.stage else v.current
    let v := { v with rows, current }
    { v with bar := v.bar.aim v.share }
  else v

/-- All stages have been reported. -/
def finish (v : View) : View := { v with done := true }

/-- Turns the spinner, unless all is done. -/
def tick (v : View) : View := if v.done then v else { v with ticks := v.ticks + 1 }

/-- Moves the bar. -/
def frame (v : View) : View := { v with bar := v.bar.frame }

/-- Fits the view to a screen; a width that is not positive is ignored. -/
def resize (v : View) (width : Int) : View := if 0 < width then { v with width } else v

/-- The pictures of the spinner. -/
def spinner : List String := ["⣾ ", "⣽ ", "⣻ ", "⢿ ", "⡿ ", "⣟ ", "⣯ ", "⣷ "]

/-- A tab takes four blanks, and the lines of a block are equally wide. -/
def block (s : String) : String :=
  let expanded := s.toList.flatMap fun c => if c = '\t' then [' ', ' ', ' ', ' '] else [c]
  match Text.splitOn '\n' (String.ofList expanded) with
  | [line] => line
  | lines =>
    let width := (lines.map Text.displayWidth).foldl max 0
    Text.join "\n" (lines.map fun line =>
      line ++ Text.replicate (width - Text.displayWidth line) ' ')

/-- The title line. -/
def header (v : View) : String :=
  if v.done then "done: " ++ v.title
  else
    spinner.getD (v.ticks % spinner.length) "" ++ " " ++ v.title ++
      (if v.current = "" then "" else " (" ++ v.current ++ ")")

/-- The cells left for the detail of a row. -/
def detailWidth (v : View) : Nat := max (v.width - 35).toNat 10

/-- The line of a row: status, stage, time and detail. -/
def rowLine (v : View) (r : Row) : String :=
  let elapsed :=
    if 0 < r.elapsed then Number.fixed 2 (Number.milliseconds r.elapsed) ++ "ms" else ""
  "  " ++ block (Text.padLeft 9 r.status) ++ " " ++ Text.padRight 10 r.stage ++ " " ++
    Text.padLeft 10 elapsed ++ " " ++ Text.truncate v.detailWidth r.detail ++ "\n"

/-- The view as text. -/
def text (v : View) : String :=
  block v.header ++ "\n\n" ++ String.join (v.rows.map v.rowLine) ++ "\n" ++
    Bar.draw (v.width - 4) (if v.done then v.share else v.bar.shown) ++ "\n"

end View

end Qll.Progress
