import Qll.Diagnostic.Basic

/-!
# Bags of diagnostics

A bag collects diagnostics up to a cap. Adding respects the cap; merging keeps everything and
raises the cap as far as sixteen bits allow. On their way into a bag repeated reports can be
suppressed: a report is forwarded unless one with the same key came before. The key of a diagnostic
is its code, severity, location and message; a missing location counts as line zero of a nameless
file.
-/

namespace Qll.Diagnostic

/-- The largest cap. -/
def maxCap : Nat := 65535

/-- Diagnostics in the order of their arrival, and how many may arrive. -/
structure Bag where
  items : List Diagnostic
  cap : Nat
  deriving Inhabited

namespace Bag

/-- An empty bag; a cap that is not positive or too large means the largest. -/
def empty (cap : Int) : Bag :=
  { items := [], cap := if 0 < cap ∧ cap ≤ 65535 then cap.toNat else maxCap }

/-- How many diagnostics a bag holds. -/
def size (b : Bag) : Nat := b.items.length

/-- Whether one more diagnostic is taken. -/
def hasRoom (b : Bag) : Bool := b.size < b.cap

/-- The bag with one more diagnostic, unless it is full. -/
def add (b : Bag) (d : Diagnostic) : Bag :=
  if b.hasRoom then { b with items := b.items ++ [d] } else b

/-- The bag with more diagnostics, as many as fit. -/
def addAll (b : Bag) (ds : List Diagnostic) : Bag := ds.foldl add b

/-- All diagnostics of both bags. -/
def merge (b other : Bag) : Bag :=
  let total := b.size + other.size
  { items := b.items ++ other.items
    cap := if b.cap < total then min total maxCap else b.cap }

/-- Whether an error is among the items. -/
def hasErrors (b : Bag) : Bool := b.items.any Diagnostic.isError

/-- Whether a warning or an error is among the items. -/
def hasWarnings (b : Bag) : Bool :=
  b.items.any fun d => Severity.warning.rank ≤ d.severity.rank

/-- How many items have exactly this severity. -/
def count (b : Bag) (s : Severity) : Nat :=
  b.items.countP fun d => d.severity == s

/-- The items in canonical order; items that agree in it keep the order of their arrival. -/
def sort (b : Bag) : Bag :=
  { b with items := b.items.mergeSort fun x y => !(y.before x) }

/-- A number and a noun, with an `s` unless it is one. -/
def plural (n : Nat) (noun : String) : String :=
  if n = 1 then "1 " ++ noun else Nat.repr n ++ " " ++ noun ++ "s"

/-- How many errors and warnings there are, in words; nothing for neither. -/
def summary (b : Bag) : String :=
  let errors := b.count .error
  let warnings := b.count .warning
  Text.join ", "
    ((if 0 < errors then [plural errors "error"] else []) ++
      (if 0 < warnings then [plural warnings "warning"] else []))

end Bag

/-! ## Repeated reports -/

open Source (Location)

/-- What two reports have to share to count as one. -/
structure Key where
  code : Code
  severity : Severity
  location : Location
  message : String
  deriving DecidableEq

/-- The place that a missing location counts as. -/
def nowhere : Location := { file := "", line := 0, column := 0 }

/-- The key of a diagnostic. -/
def key (d : Diagnostic) : Key :=
  { code := d.code, severity := d.severity, location := d.location.getD nowhere
    message := d.message }

/-- The keys reported so far. -/
structure Seen where
  keys : List Key := []

namespace Seen

/-- Whether a diagnostic is forwarded, and the keys afterwards. -/
def report (s : Seen) (d : Diagnostic) : Bool × Seen :=
  if s.keys.contains d.key then (false, s) else (true, { keys := d.key :: s.keys })

/-- The diagnostics of a list that are forwarded, and the keys afterwards. -/
def forward (s : Seen) : List Diagnostic → List Diagnostic × Seen
  | [] => ([], s)
  | d :: rest =>
    let (fresh, s) := s.report d
    let (more, s) := s.forward rest
    (if fresh then d :: more else more, s)

end Seen

end Qll.Diagnostic
