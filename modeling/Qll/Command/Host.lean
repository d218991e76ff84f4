import Qll.Files.Disk

/-!
# Where the program runs

What the program needs besides files: places to write to, a clock, and whether it is called off.
-/

namespace Qll.Command

/-- The surroundings of the program. -/
class Host (m : Type → Type) extends Files.Disk m where
  /-- Writes to standard output. -/
  out : List UInt8 → m Unit
  /-- Writes to standard error. -/
  err : String → m Unit
  /-- Writes a trace to standard error. -/
  log : String → m Unit
  /-- Shows the progress of a compilation. -/
  draw : String → m Unit
  /-- Nanoseconds since the start of 1970. -/
  clock : m Nat
  /-- The time of day, as hours, minutes and seconds. -/
  timeOfDay : m String
  /-- Whether standard output is a terminal. -/
  outIsTerminal : m Bool
  /-- Whether standard error is a terminal. -/
  errIsTerminal : m Bool
  /-- Whether the program is called off. -/
  cancelled : m Bool

end Qll.Command
