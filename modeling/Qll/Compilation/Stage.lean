/-!
# Stages of a compilation

A program is compiled in seven stages; the first four check it. An event tells the progress of a
stage.
-/

namespace Qll.Compilation

/-- A stage. -/
inductive Stage
  | bind
  | kindcheck
  | typecheck
  | deferred
  | liveness
  | codegen
  | link
  deriving DecidableEq, Inhabited, Repr

namespace Stage

/-- The name of a stage. -/
def name : Stage → String
  | bind => "bind"
  | kindcheck => "kindcheck"
  | typecheck => "typecheck"
  | deferred => "deferred"
  | liveness => "liveness"
  | codegen => "codegen"
  | link => "link"

/-- All stages in order. -/
def all : List Stage := [bind, kindcheck, typecheck, deferred, liveness, codegen, link]

/-- The stages that check a program. -/
def checking : List Stage := [bind, kindcheck, typecheck, deferred]

/-- Whether a stage goes on after errors, to find more of them. -/
def toleratesErrors : Stage → Bool
  | kindcheck | typecheck | deferred => true
  | bind | liveness | codegen | link => false

end Stage

/-- How far a stage is. -/
inductive Status
  | working
  | done
  /-- The stage ended with errors, and there were none before. -/
  | error
  /-- The stage was left out because of errors. -/
  | skipped
  deriving DecidableEq, Inhabited, Repr

/-- The name of a status. -/
def Status.name : Status → String
  | working => "working"
  | done => "done"
  | error => "error"
  | skipped => "skipped"

/-- The progress of a stage. -/
structure Event where
  stage : Stage
  status : Status
  detail : String := ""
  /-- How long the stage took, in nanoseconds. -/
  elapsed : Nat := 0
  deriving DecidableEq, Inhabited

end Qll.Compilation
