import Qll.Machine.Opcode
import Qll.Machine.Register
import Qll.Machine.Word
import Qll.Number.Total

/-!
# Assembler directives

The directives of a stream, what is written of them, and when a stream of them is closed.
-/

/-! ## Assembler directives

The compiler's output is a list of directives: labels, instructions, constants and data. A label
marks the address of the directive behind it and may be referred to before it is defined.
-/

namespace Qll.Assembly

open Machine (Word Register Opcode)

/-- What a data word is made of: a number, the code points of a text, or the address of a
label. -/
inductive Value
  | immediate (word : Word)
  | text (text : String)
  | reference (label : String)
  deriving DecidableEq, Inhabited

/-- An operation with its registers; those it does not use are `r0`. -/
structure Instruction where
  op : Opcode
  d : Register := ⟨0⟩
  s0 : Register := ⟨0⟩
  s1 : Register := ⟨0⟩
  deriving DecidableEq, Inhabited

/-- One entry of the stream. -/
inductive Directive
  | label (name : String)
  | data (values : List Value)
  | instruction (instruction : Instruction)
  | constant (d : Register) (value : Value)
  deriving DecidableEq, Inhabited

/-- The instruction with the given operands, for a list of at most three. -/
def Instruction.ofList (op : Opcode) (registers : List Register) : Instruction :=
  { op, d := registers.getD 0 ⟨0⟩, s0 := registers.getD 1 ⟨0⟩, s1 := registers.getD 2 ⟨0⟩ }

/-- The registers an instruction uses. -/
def Instruction.registers (i : Instruction) : List Register :=
  [i.d, i.s0, i.s1].take i.op.operands

/-- A value as it is written in a listing. -/
def Value.render : Value → String
  | immediate w => Word.fixedText w
  | text s => Text.quote s
  | reference label => "@" ++ label

/-- How many words a value fills; a text fills one per code point. -/
def Value.size : Value → Nat
  | text s => s.length
  | _ => 1

namespace Directive

/-- A directive as one line of a listing. -/
def render : Directive → String
  | label name => name ++ ":"
  | data values => "  " ++ Text.join " " ("data" :: values.map Value.render)
  | instruction i => "  " ++ Text.join " " (i.op.name :: i.registers.map Register.name)
  | constant d value => "  constant " ++ d.name ++ " " ++ value.render

/-- How many words a directive fills once assembled. -/
def size : Directive → Nat
  | label _ => 0
  | instruction _ => 1
  | constant _ _ => 2
  | data values => Number.total Value.size values

/-- The name a label directive defines. -/
def labelName? : Directive → Option String
  | label name => some name
  | _ => none

end Directive

/-- A listing: one directive per line. -/
def listing (ds : List Directive) : String :=
  ds.foldl (fun done d => done ++ d.render ++ "\n") ""

/-- The labels defined in a stream, in order. -/
def labels (ds : List Directive) : List String :=
  ds.filterMap Directive.labelName?

/-- The words a stream fills. -/
def totalSize (ds : List Directive) : Nat :=
  Number.total Directive.size ds

end Qll.Assembly

/-! ## Closed streams

A stream is closed when every label is defined once, every label referred to is defined, and
nothing writes the register that holds the constant 1. `Defect.find` names the first defect:
repeated labels are looked for before everything else.
-/

namespace Qll.Assembly

open Machine (Register)

/-- Why a stream is not closed. Positions count directives from zero. -/
inductive Defect
  | labelTwice (label : String) (first second : Nat)
  | undefinedLabel (position : Nat) (label : String)
  | oneOverwritten (position : Nat)
  deriving DecidableEq

namespace Defect

/-- The wording of a defect. -/
def message : Defect → String
  | labelTwice label first second =>
    "label " ++ label ++ " defined at " ++ Nat.repr first ++ " and " ++ Nat.repr second
  | undefinedLabel position label =>
    "directive " ++ Nat.repr position ++ " references undefined label " ++ label
  | oneOverwritten position =>
    "directive " ++ Nat.repr position ++ " overwrites " ++ Register.one.name

/-- The first label that an earlier one repeats; `seen` holds the labels met so far with their
positions. -/
def findTwice : List Directive → Nat → List (String × Nat) → Option Defect
  | [], _, _ => none
  | d :: rest, position, seen =>
    match d with
    | .label name =>
      match seen.lookup name with
      | some first => some (labelTwice name first position)
      | none => findTwice rest (position + 1) ((name, position) :: seen)
    | _ => findTwice rest (position + 1) seen

/-- The first value that refers to a label outside `defined`. -/
def findUndefined (defined : List String) (position : Nat) (values : List Value) : Option Defect :=
  values.findSome? fun
    | .reference label =>
      if defined.contains label then none else some (undefinedLabel position label)
    | _ => none

/-- What is wrong with one directive on its own. -/
def ofDirective (defined : List String) (position : Nat) : Directive → Option Defect
  | .label _ => none
  | .constant d value =>
    if d = Register.one then some (oneOverwritten position)
    else findUndefined defined position [value]
  | .data values => findUndefined defined position values
  | .instruction i =>
    if i.op.writes ∧ i.d = Register.one then some (oneOverwritten position) else none

/-- The first directive with a defect of its own. -/
def findOwn (defined : List String) : List Directive → Nat → Option Defect
  | [], _ => none
  | d :: rest, position =>
    match ofDirective defined position d with
    | some defect => some defect
    | none => findOwn defined rest (position + 1)

/-- The first defect of a stream. -/
def find (ds : List Directive) : Option Defect :=
  match findTwice ds 0 [] with
  | some defect => some defect
  | none => findOwn (labels ds) ds 0

end Defect

end Qll.Assembly
