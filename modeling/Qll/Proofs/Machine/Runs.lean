import Mathlib
import Qll.Machine.Execution
import Qll.Proofs.Computation

/-!
# Runs of the machine

A run is a chain of steps none of which halts or traps. Registers and memory are seen through two
total readings, `State.reg` and `State.word`, and every step that goes on is one of three changes
of a state: a register is assigned, a word is stored, or the machine only moves on. The step lemmas
say which instruction leads to which change.
-/

namespace Qll.Machine

open Assembly (Instruction)
open Qll.Computation (except_bind_ok except_pure_ok)

namespace Register

/-- Distinct registers have distinct numbers. -/
theorem toNat_inj {a b : Register} : a.toNat = b.toNat ↔ a = b := by
  cases a
  cases b
  simp [toNat, UInt8.toNat_inj]

/-- A register the machine has, other than the one that always holds 1. -/
structure Writable (r : Register) : Prop where
  lt : r.toNat < 64
  ne_one : r ≠ .one

/-- The stack pointer can be written. -/
theorem writable_sp : Writable .sp := ⟨by decide, by decide⟩

/-- The return register can be written. -/
theorem writable_result : Writable .result := ⟨by decide, by decide⟩

/-- The registers whose number is below that of `one` can be written. -/
theorem writable_of_lt {r : Register} (h : r.toNat < 62) : Writable r where
  lt := by omega
  ne_one hr := by
    rw [hr] at h
    exact absurd h (by decide)

end Register

namespace State

/-- The content of a register; numbers beyond the last register read as zero. -/
def reg (s : State) (r : Register) : Word := s.registers[r.toNat]?.getD 0

/-- The word at an address; addresses outside memory read as zero. -/
def word (s : State) (a : Nat) : Word := s.memory[a]?.getD 0

/-- Writes a register and goes on at `pc`. -/
def assign (s : State) (d : Register) (w pc : Word) : State :=
  { s with registers := s.registers.setIfInBounds d.toNat w, pc }

/-- Writes a word of memory and goes on at `pc`. -/
def put (s : State) (a : Nat) (w pc : Word) : State :=
  { s with memory := s.memory.setIfInBounds a w, pc }

/-- Goes on at `pc`. -/
def goto (s : State) (pc : Word) : State := { s with pc }

/-- Enters an interrupt handler; the interrupted code goes on at `back`. -/
def enterHandler (s : State) (handler back : Word) : State :=
  { s with pc := handler, interrupted := back :: s.interrupted }

/-- Goes on with the interrupted code at `back`; `rest` are the interrupts around it. -/
def leaveHandler (s : State) (back : Word) (rest : List Word) : State :=
  { s with pc := back, interrupted := rest }

/-- The stack pointer as a number. -/
def stack (s : State) : Nat := (s.reg .sp).toNat

section Readings

variable (s : State) (d q : Register) (w pc : Word) (a b : Nat)

/-! ### Fields

What an instruction writes, and what it leaves; each of these is seen by `simp`. -/

@[simp] theorem assign_pc : (s.assign d w pc).pc = pc := rfl
@[simp] theorem assign_memory : (s.assign d w pc).memory = s.memory := rfl
@[simp] theorem assign_interrupted : (s.assign d w pc).interrupted = s.interrupted := rfl
@[simp] theorem assign_word : (s.assign d w pc).word a = s.word a := rfl
@[simp] theorem put_pc : (s.put a w pc).pc = pc := rfl
@[simp] theorem put_interrupted : (s.put a w pc).interrupted = s.interrupted := rfl
@[simp] theorem put_reg : (s.put a w pc).reg q = s.reg q := rfl
@[simp] theorem put_stack : (s.put a w pc).stack = s.stack := rfl
@[simp] theorem goto_pc : (s.goto pc).pc = pc := rfl
@[simp] theorem goto_memory : (s.goto pc).memory = s.memory := rfl
@[simp] theorem goto_interrupted : (s.goto pc).interrupted = s.interrupted := rfl
@[simp] theorem goto_reg : (s.goto pc).reg q = s.reg q := rfl
@[simp] theorem goto_word : (s.goto pc).word a = s.word a := rfl
@[simp] theorem goto_stack : (s.goto pc).stack = s.stack := rfl

@[simp] theorem put_memory_size : (s.put a w pc).memory.size = s.memory.size := by simp [put]

/-- A written register holds what was written. -/
theorem reg_assign_self (h : d.toNat < 64) : (s.assign d w pc).reg d = w := by
  simp [assign, reg, h]

/-- Writing a register leaves the others. -/
theorem reg_assign_of_ne (h : q ≠ d) : (s.assign d w pc).reg q = s.reg q := by
  have hne : d.toNat ≠ q.toNat := fun e => h (Register.toNat_inj.1 e).symm
  simp [assign, reg, Vector.getElem?_setIfInBounds_ne hne]

/-- A stored word is read back. -/
theorem word_put_self (h : a < s.memory.size) : (s.put a w pc).word a = w := by
  simp [put, word, h]

/-- Storing a word leaves the others. -/
theorem word_put_of_ne (h : b ≠ a) : (s.put a w pc).word b = s.word b := by
  simp [put, word, Array.getElem?_setIfInBounds_ne (Ne.symm h)]

/-- A word after a store inside memory. -/
theorem word_put (h : a < s.memory.size) :
    (s.put a w pc).word b = if b = a then w else s.word b := by
  split
  · next e => rw [e, word_put_self s w pc a h]
  · next e => exact word_put_of_ne s w pc a b e

/-- Writing another register does not move the stack pointer. -/
theorem stack_assign_of_ne (h : d ≠ .sp) : (s.assign d w pc).stack = s.stack := by
  simp [stack, reg_assign_of_ne s d .sp w pc (Ne.symm h)]

/-- Writing the stack pointer. -/
@[simp] theorem stack_assign_sp : (s.assign .sp w pc).stack = w.toNat := by
  simp [stack, reg_assign_self s .sp w pc (by decide)]

end Readings

/-- The words depend on memory alone. -/
theorem word_eq_of_memory {s t : State} (h : t.memory = s.memory) : t.word = s.word := by
  funext x
  rw [word, h, word]

/-- Reading an existing register does not trap. -/
theorem register_eq {s : State} {r : Register} (h : r.toNat < 64) : s.register r = .ok (s.reg r) := by
  simp [register, reg, h]

/-- Writing an existing register does not trap. -/
theorem setRegister_eq {s : State} {r : Register} {w : Word} (h : r.toNat < 64) :
    s.setRegister r w = .ok { s with registers := s.registers.setIfInBounds r.toNat w } := by
  simp [setRegister, h, Vector.setIfInBounds, Vector.set, Array.setIfInBounds]

end State

/-! ## Steps -/

section Steps

variable {image : Image} {handlers : Handlers} {s t : State} {next : Word}

/-- The cell at the program counter. -/
def Fetches (image : Image) (s : State) (action : Action) (next : Word) : Prop :=
  image.cells[s.pc.toNat]?.join = some ⟨action, next⟩

/-- A cell that does not halt leads to the state it performs. -/
theorem step_of_perform {action : Action} (hf : Fetches image s action next)
    (hh : Cell.halts ⟨action, next⟩ = false) (hp : performCell handlers s ⟨action, next⟩ = .ok t)
    (ht : t.reg .one = 1) : step image handlers s = .next t := by
  have hone : t.registers[62] = 1 := ht
  unfold Fetches at hf
  simp [step, hf, hh, hp, hone]

/-- Assigning a register other than `one` keeps it. -/
theorem one_assign {d : Register} {w pc : Word} (hd : d.Writable) (hone : s.reg .one = 1) :
    (s.assign d w pc).reg .one = 1 := by
  rw [State.reg_assign_of_ne _ _ _ _ _ (Ne.symm hd.ne_one), hone]

/-- A constant is loaded. -/
theorem step_constant {d : Register} {w : Word} (hf : Fetches image s (.constant d (some w)) next)
    (hd : d.Writable) (hone : s.reg .one = 1) :
    step image handlers s = .next (s.assign d w next) := by
  refine step_of_perform hf rfl ?_ (one_assign hd hone)
  simp only [performCell, State.setRegister_eq hd.lt]
  rfl

/-- A register is copied. -/
theorem step_mov {d a b : Register} (hf : Fetches image s (.instruction ⟨.mov, d, a, b⟩) next)
    (hd : d.Writable) (ha : a.toNat < 64) (hb : b.toNat < 64) (hone : s.reg .one = 1) :
    step image handlers s = .next (s.assign d (s.reg a) next) := by
  refine step_of_perform hf rfl ?_ (one_assign hd hone)
  simp only [performCell, perform, State.register_eq ha, State.register_eq hb,
    State.setRegister_eq hd.lt]
  rfl

/-- Two registers are combined. -/
theorem step_binary {op : Opcode} {d a b : Register} {w : Word}
    (hf : Fetches image s (.instruction ⟨op, d, a, b⟩) next)
    (hw : binary s.pc op (s.reg a) (s.reg b) = .ok w)
    (hd : d.Writable) (ha : a.toNat < 64) (hb : b.toNat < 64) (hone : s.reg .one = 1) :
    step image handlers s = .next (s.assign d w next) := by
  have hhalt : Cell.halts ⟨.instruction ⟨op, d, a, b⟩, next⟩ = false := by
    cases op <;> first | rfl | cases hw
  refine step_of_perform hf hhalt ?_ (one_assign hd hone)
  cases op
  case add | sub | mul | div | mod | and | or | xor | shl | shr | eq | neq | lt | gt =>
    simp only [performCell, perform, State.register_eq ha, State.register_eq hb]
    simp only [bind, Except.bind, hw, State.setRegister_eq hd.lt]
    rfl
  all_goals cases hw

/-- A word inside memory is loaded. -/
theorem step_load {d a b : Register} (hf : Fetches image s (.instruction ⟨.load, d, a, b⟩) next)
    (hin : (s.reg a).toNat < s.memory.size)
    (hd : d.Writable) (ha : a.toNat < 64) (hb : b.toNat < 64) (hone : s.reg .one = 1) :
    step image handlers s = .next (s.assign d (s.word (s.reg a).toNat) next) := by
  refine step_of_perform hf rfl ?_ (one_assign hd hone)
  have hget : s.memory[(s.reg a).toNat]? = some (s.word (s.reg a).toNat) := by
    simp [State.word, hin]
  simp only [performCell, perform, State.register_eq ha, State.register_eq hb]
  simp only [bind, Except.bind, hget, State.setRegister_eq hd.lt]
  rfl

/-- A word inside memory is stored. -/
theorem step_store {d a b : Register} (hf : Fetches image s (.instruction ⟨.store, d, a, b⟩) next)
    (hin : (s.reg d).toNat < s.memory.size)
    (hd : d.toNat < 64) (ha : a.toNat < 64) (hb : b.toNat < 64) (hone : s.reg .one = 1) :
    step image handlers s = .next (s.put (s.reg d).toNat (s.reg a) next) := by
  refine step_of_perform hf rfl ?_ hone
  simp only [performCell, perform, State.register_eq ha, State.register_eq hb]
  simp only [bind, Except.bind, State.register_eq hd, if_pos hin]
  rfl

/-- A jump. -/
theorem step_jmp {d a b : Register} (hf : Fetches image s (.instruction ⟨.jmp, d, a, b⟩) next)
    (hd : d.toNat < 64) (ha : a.toNat < 64) (hb : b.toNat < 64) (hone : s.reg .one = 1) :
    step image handlers s = .next (s.goto (s.reg d)) := by
  refine step_of_perform hf rfl ?_ hone
  simp only [performCell, perform, State.register_eq ha, State.register_eq hb]
  simp only [bind, Except.bind, State.register_eq hd]
  rfl

/-- A jump if a register is zero. -/
theorem step_jz {d a b : Register} (hf : Fetches image s (.instruction ⟨.jz, d, a, b⟩) next)
    (hd : d.toNat < 64) (ha : a.toNat < 64) (hb : b.toNat < 64) (hone : s.reg .one = 1) :
    step image handlers s = .next (s.goto (if s.reg d = 0 then s.reg a else next)) := by
  refine step_of_perform hf rfl ?_ hone
  simp only [performCell, perform, State.register_eq ha, State.register_eq hb]
  simp only [bind, Except.bind, State.register_eq hd]
  rfl

/-- A jump unless a register is zero. -/
theorem step_jnz {d a b : Register} (hf : Fetches image s (.instruction ⟨.jnz, d, a, b⟩) next)
    (hd : d.toNat < 64) (ha : a.toNat < 64) (hb : b.toNat < 64) (hone : s.reg .one = 1) :
    step image handlers s = .next (s.goto (if s.reg d = 0 then next else s.reg a)) := by
  refine step_of_perform hf rfl ?_ hone
  simp only [performCell, perform, State.register_eq ha, State.register_eq hb]
  simp only [bind, Except.bind, State.register_eq hd]
  rfl

/-- An interrupt that does not trap enters its handler and changes nothing else. -/
theorem step_int {d a b : Register} (hf : Fetches image s (.instruction ⟨.int, d, a, b⟩) next)
    (h : step image handlers s = .next t) :
    ∃ handler, t = s.enterHandler handler next := by
  unfold Fetches at hf
  simp only [step, hf, Cell.halts, reduceCtorEq, decide_false, Bool.false_eq_true,
    ↓reduceIte] at h
  split at h
  · cases h
  · next hperform =>
    split at h
    · cases h
      simp only [performCell, perform, except_bind_ok] at hperform
      obtain ⟨_, -, _, -, n, -, hlookup⟩ := hperform
      split at hlookup
      · cases hlookup
      · next handler _ => exact ⟨handler, (except_pure_ok.1 hlookup).symm⟩
    · cases h

/-- A return from an interrupt. -/
theorem step_rti {d a b : Register} {back : Word} {rest : List Word}
    (hf : Fetches image s (.instruction ⟨.rti, d, a, b⟩) next) (hi : s.interrupted = back :: rest)
    (ha : a.toNat < 64) (hb : b.toNat < 64) (hone : s.reg .one = 1) :
    step image handlers s = .next (s.leaveHandler back rest) := by
  refine step_of_perform hf rfl ?_ hone
  simp only [performCell, perform, State.register_eq ha, State.register_eq hb]
  simp only [bind, Except.bind, hi]
  rfl

/-- The machine stops. -/
theorem step_halt {d a b : Register} (hf : Fetches image s (.instruction ⟨.halt, d, a, b⟩) next)
    (ha : a.toNat < 64) (hb : b.toNat < 64) : step image handlers s = .halt s := by
  unfold Fetches at hf
  simp [step, hf, Cell.halts, Cell.operandTrap?, State.register_eq ha, State.register_eq hb]

/-- After every step the register `one` holds 1. -/
theorem one_of_step (h : step image handlers s = .next t) : t.reg .one = 1 := by
  unfold step at h
  split at h
  · cases h
  · split at h
    · split at h <;> cases h
    · split at h
      · cases h
      · split at h
        · next hone =>
          cases h
          exact hone
        · cases h

/-- Writing a register leaves memory alone. -/
theorem setRegister_memory {d : Register} {w : Word} (h : s.setRegister d w = .ok t) :
    t.memory = s.memory := by
  unfold State.setRegister at h
  split at h
  · cases h
    rfl
  · cases h

/-- An instruction does not change the size of memory. -/
theorem perform_memory_size {i : Instruction} (h : perform handlers s next i = .ok t) :
    t.memory.size = s.memory.size := by
  unfold perform at h
  simp only [except_bind_ok] at h
  obtain ⟨a, -, b, -, h⟩ := h
  split at h
  all_goals try simp only [except_bind_ok, except_pure_ok] at h
  · rw [← h]
  · rw [← h]
  · rw [← h]
  · obtain ⟨n, -, h⟩ := h
    split at h
    · cases h
    · rw [← except_pure_ok.1 h]
  · split at h
    · cases h
    · rw [← except_pure_ok.1 h]
  · split at h
    · cases h
    · simp only [except_bind_ok, except_pure_ok] at h
      obtain ⟨u, hu, rfl⟩ := h
      rw [← setRegister_memory hu]
  · obtain ⟨n, -, h⟩ := h
    split at h
    · simp [← except_pure_ok.1 h]
    · cases h
  · obtain ⟨u, hu, rfl⟩ := h
    rw [← setRegister_memory hu]
  · obtain ⟨u, hu, rfl⟩ := h
    rw [← setRegister_memory hu]
  · obtain ⟨n, -, rfl⟩ := h
    rfl
  · obtain ⟨n, -, rfl⟩ := h
    rfl
  · obtain ⟨n, -, rfl⟩ := h
    rfl
  · obtain ⟨w, -, u, hu, rfl⟩ := h
    rw [← setRegister_memory hu]

/-- A step does not change the size of memory. -/
theorem size_of_step (h : step image handlers s = .next t) : t.memory.size = s.memory.size := by
  unfold step at h
  split at h
  · cases h
  · next cell _ =>
    split at h
    · split at h <;> cases h
    · split at h
      · cases h
      · next hperform =>
        split at h
        · cases h
          unfold performCell at hperform
          split at hperform
          · exact perform_memory_size hperform
          · cases hperform
          · simp only [except_bind_ok, except_pure_ok] at hperform
            obtain ⟨u, hu, rfl⟩ := hperform
            rw [← setRegister_memory hu]
        · cases h

end Steps

/-! ## Reaching -/

/-- One state leads to another in any number of steps. -/
def Reaches (image : Image) (handlers : Handlers) : State → State → Prop :=
  Relation.ReflTransGen fun s t => step image handlers s = .next t

namespace Reaches

variable {image : Image} {handlers : Handlers} {s t u : State}

/-- Every state reaches itself. -/
@[refl] theorem refl (s : State) : Reaches image handlers s s := Relation.ReflTransGen.refl

/-- Runs can be put together. -/
theorem trans (h : Reaches image handlers s t) (h' : Reaches image handlers t u) :
    Reaches image handlers s u := Relation.ReflTransGen.trans h h'

/-- One step is a run. -/
theorem single (h : step image handlers s = .next t) : Reaches image handlers s t :=
  Relation.ReflTransGen.single h

/-- A step in front of a run. -/
theorem head (h : step image handlers s = .next t) (h' : Reaches image handlers t u) :
    Reaches image handlers s u := Relation.ReflTransGen.head h h'

/-- A run keeps the register that holds 1. -/
theorem one (h : Reaches image handlers s t) (hone : s.reg .one = 1) : t.reg .one = 1 := by
  induction h with
  | refl => exact hone
  | tail _ hstep _ => exact one_of_step hstep

/-- A run does not change the size of memory. -/
theorem size (h : Reaches image handlers s t) : t.memory.size = s.memory.size := by
  induction h with
  | refl => rfl
  | tail _ hstep ih => exact (size_of_step hstep).trans ih

end Reaches

/-- From a state the machine comes to a halt, with a word in the return register. -/
def Halts (image : Image) (handlers : Handlers) (s : State) (w : Word) : Prop :=
  ∃ t, Reaches image handlers s t ∧ step image handlers t = .halt t ∧ t.reg .result = w

/-- What leads to a state that comes to a halt comes to that halt. -/
theorem Reaches.halts {image : Image} {handlers : Handlers} {s t : State} {w : Word}
    (h : Reaches image handlers s t) (h' : Halts image handlers t w) : Halts image handlers s w := by
  obtain ⟨u, htu, hu⟩ := h'
  exact ⟨u, h.trans htu, hu⟩

/-- The state after a number of steps, if none of them halts or traps. -/
def advance (image : Image) (handlers : Handlers) : Nat → State → Option State
  | 0, s => some s
  | n + 1, s =>
    match step image handlers s with
    | .next t => advance image handlers n t
    | _ => none

/-- A number of steps is a run. -/
theorem reaches_of_advance {image : Image} {handlers : Handlers} {n : Nat} {s t : State}
    (h : advance image handlers n s = some t) : Reaches image handlers s t := by
  induction n generalizing s with
  | zero => exact Option.some.inj h ▸ .refl s
  | succ n ih =>
    unfold advance at h
    split at h
    · next hstep => exact .head hstep (ih h)
    · cases h

end Qll.Machine
