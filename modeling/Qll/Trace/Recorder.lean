import Qll.Trace.Event

/-!
# Recording a trace

A ring has room for a fixed number of items. Once it is full, each new item takes the place of the
oldest one. A recorder keeps the last events in a ring and, from the level of phases on, writes each
event as it comes. Spans are numbered from one on; a span that the level does not admit leaves no
trace.
-/

namespace Qll.Trace

/-! ## Rings -/

/-- A fixed number of places for items. `head` is the place that is written next, and `full` says whether
every place was written once. -/
structure Ring (α : Type) where
  capacity : Nat
  slots : Array α
  head : Nat := 0
  full : Bool := false

namespace Ring

variable {α : Type}

/-- The number of items of a ring for which no size is given. -/
def defaultCapacity : Nat := 4096

/-- A ring in which nothing was written; a size that is not positive means the default. -/
def ofCapacity [Inhabited α] (n : Int) : Ring α :=
  let capacity := if n ≤ 0 then defaultCapacity else n.toNat
  { capacity, slots := Array.replicate capacity default }

instance [Inhabited α] : Inhabited (Ring α) := ⟨ofCapacity 0⟩

/-- The ring with one more item. The place after the last one is the first one again. -/
def push (r : Ring α) (a : α) : Ring α :=
  let head := (r.head + 1) % r.capacity
  { r with slots := r.slots.set! r.head a, head, full := r.full || head == 0 }

/-- The items, oldest first. -/
def toList (r : Ring α) : List α :=
  if r.full then r.slots.toList.drop r.head ++ r.slots.toList.take r.head
  else r.slots.toList.take r.head

end Ring

/-! ## Recorders -/

/-- A trace under way. -/
structure Recorder where
  level : Level := .off
  /-- The format of what is written. -/
  format : Format := .text
  ring : Ring Event := .ofCapacity 0
  /-- What was written so far. -/
  written : String := ""
  spans : Nat := 0
  events : Nat := 0
  /-- The time that new events get. -/
  clock : Int := 0
  deriving Inhabited

/-- An open span. -/
structure Span where
  id : Nat
  parent : Nat
  scope : Scope
  name : String
  extra : List (String × String) := []
  deriving Inhabited

namespace Recorder

/-- A recorder; a format left open is chosen by the path. -/
def create (level : Level) (format : Format) (path : String) (capacity : Int) : Recorder :=
  { level, format := format.resolve path, ring := .ofCapacity capacity }

/-- Whether events are kept for the report of an internal error. -/
def hasRing (r : Recorder) : Bool := r.level.enabled

/-- Whether events are written as they come. -/
def streams (r : Recorder) : Bool := Level.phase.rank ≤ r.level.rank

/-- Records an event that the level admits. -/
def emit (r : Recorder) (e : Event) : Recorder :=
  if r.level.admits e.scope then
    { r with
      ring := r.ring.push e,
      written := if r.streams then r.written ++ e.write r.format else r.written }
  else r

/-- The events kept, oldest first. -/
def snapshot (r : Recorder) : List Event := r.ring.toList

/-- The events kept, as text. -/
def dump (r : Recorder) (f : Format) : String := String.join (r.snapshot.map (·.write f))

/-- Records an event of a span, with the next number and the current time. -/
def record (r : Recorder) (s : Span) (kind : Kind) (name detail : String)
    (extra : List (String × String)) : Recorder :=
  let sequence := r.events + 1
  { r with events := sequence }.emit
    { time := r.clock, sequence, kind, scope := s.scope, span := s.id, parent := s.parent, name,
      detail, extra }

/-- Begins a span; there is none if the level does not admit its scope. -/
def enter (r : Recorder) (scope : Scope) (name : String) (parent : Nat) : Option Span × Recorder :=
  if r.level.admits scope then
    let span : Span := { id := r.spans + 1, parent, scope, name }
    (some span, { r with spans := span.id }.record span .start name "" [])
  else (none, r)

/-- Records that something happens within a span. -/
def point (r : Recorder) (s : Option Span) (name detail : String) : Recorder :=
  match s with
  | some s => r.record s .point name detail []
  | none => r

/-- Ends a span. -/
def leave (r : Recorder) (s : Option Span) (detail : String) : Recorder :=
  match s with
  | some s => r.record s .finish s.name detail s.extra
  | none => r

end Recorder

/-- Adds an entry to the end of a span; a later entry of one key counts. -/
def Span.addExtra (s : Span) (key value : String) : Span :=
  { s with extra := (key, value) :: s.extra.filter fun (k, _) => k ≠ key }

/-- The number of a span as the parent of others. -/
def Span.parentId (s : Option Span) : Nat := (s.map Span.id).getD 0

end Qll.Trace
