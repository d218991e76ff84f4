import Qll.Assembly.Directive

/-!
# Memory images

Assembling lays a closed stream out from address zero. Each label stands at the sum of the sizes
in front of it, instructions and constants become cells that know where the next one starts, and
data fills words of the initial memory; all other words are zero.
-/

namespace Qll.Machine

open Assembly (Directive Value Instruction Defect)

/-- What stands at the address of an instruction. A constant whose value is a text can be laid
out but not executed. -/
inductive Action
  | instruction (instruction : Instruction)
  | constant (d : Register) (value : Option Word)
  deriving DecidableEq

/-- An action and the address of the directive behind it. -/
structure Cell where
  action : Action
  next : Word
  deriving DecidableEq

/-- An assembled program. -/
structure Image where
  /-- Addresses of the labels. -/
  labels : List (String × Word)
  /-- The cell at each address of the program, if one starts there. -/
  cells : Array (Option Cell)
  /-- The initial memory. -/
  memory : Array Word

/-- Why a stream cannot be assembled. -/
inductive AssemblyError
  | defect (defect : Defect)
  | tooLarge (words memory : Nat)

/-- The wording of an assembly error. -/
def AssemblyError.message : AssemblyError → String
  | .defect d => d.message
  | .tooLarge words memory =>
    "program of " ++ Nat.repr words ++ " words does not fit " ++ Nat.repr memory

namespace Image

/-- The addresses of the labels of a stream laid out from `address` on. -/
def labelTable : List Directive → Nat → List (String × Word)
  | [], _ => []
  | d :: rest, address =>
    match d with
    | .label name => (name, UInt32.ofNat address) :: labelTable rest address
    | _ => labelTable rest (address + d.size)

/-- The address of a label; labels that are not defined count as zero. -/
def resolve (table : List (String × Word)) (label : String) : Word :=
  (table.lookup label).getD 0

/-- The words a value fills. -/
def valueWords (table : List (String × Word)) : Value → List Word
  | .immediate w => [w]
  | .reference label => [resolve table label]
  | .text s => s.toList.map fun c => c.val

/-- The cells and the words of one directive that starts at `address`: as many of each as the
directive is large. -/
def place (table : List (String × Word)) (address : Nat) (d : Directive) :
    List (Option Cell × Word) :=
  match d with
  | .label _ => []
  | .instruction i => [(some ⟨.instruction i, UInt32.ofNat (address + 1)⟩, 0)]
  | .constant r value =>
    let word :=
      match value with
      | .immediate w => some w
      | .reference label => some (resolve table label)
      | .text _ => none
    [(some ⟨.constant r word, UInt32.ofNat (address + 2)⟩, 0), (none, 0)]
  | .data values => (values.flatMap (valueWords table)).map fun w => (none, w)

/-- The whole layout from `address` on. -/
def layout (table : List (String × Word)) : List Directive → Nat → List (Option Cell × Word)
  | [], _ => []
  | d :: rest, address => place table address d ++ layout table rest (address + d.size)

/-- The image of a stream in a memory of the given size. -/
def assemble (ds : List Directive) (memory : Nat) : Except AssemblyError Image :=
  match Defect.find ds with
  | some defect => .error (.defect defect)
  | none =>
    let words := Assembly.totalSize ds
    if memory < words then .error (.tooLarge words memory)
    else
      let table := labelTable ds 0
      let placed := layout table ds 0
      .ok
        { labels := table
          cells := (placed.map Prod.fst).toArray
          memory := (placed.map Prod.snd).toArray ++ Array.replicate (memory - words) 0 }

/-- The address of a label. -/
def label? (image : Image) (name : String) : Option Word :=
  image.labels.lookup name

end Image

end Qll.Machine
