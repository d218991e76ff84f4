import Qll.Codegen.Address
import Qll.Codegen.Finish
import Qll.Proofs.Codegen.Building
import Qll.Proofs.Codegen.Registers
import Qll.Proofs.Machine.Placement

/-!
# Activations of functions

The code of a completed function is its body between an entry and an exit that are generated from
the registers the body ever took and from the size of its frame. The entry pushes the return
address, makes room, pushes the callee-save registers in use and leaves the frame pointer on top;
the exit undoes this in the opposite order. `Linked` names the words by which the exit finds back,
so a body that keeps them returns to its caller with the stack pointer and the callee-save registers
of the entry.
-/

namespace Qll.Codegen

open Assembly (Directive Value totalSize)
open Machine (Register Opcode Word Image Handlers State Placed Reaches ins pushCode popCode)
open Qll.Computation

/-- The code that makes room for `n` words of a frame. -/
def roomCode (n : Nat) : List Directive :=
  if 0 < n then
    [.constant scratchSize (.immediate (UInt32.ofNat n)), ins .sub [.sp, .sp, scratchSize]]
  else []

/-- The entry of a function that saves the registers `saved` and has a frame of `n` words. -/
def entryCode (saved : List Register) (n : Nat) : List Directive :=
  pushCode .result ++ ins .mov [scratchFrame, .sp] :: roomCode n ++ saved.flatMap pushCode ++
    pushCode scratchFrame

/-- The exit of a function that restores the registers `saved`. -/
def exitCode (saved : List Register) : List Directive :=
  popCode scratchFrame ++ saved.reverse.flatMap popCode ++
    ins .mov [.sp, scratchFrame] :: popCode scratchFrame ++ [ins .jmp [scratchFrame]]

/-- The code of the entry of a function. -/
theorem enterStack_ok {f : StackFrame} (hf : f.interrupt = false) {r r' : Routine} {u : Unit}
    (h : enterStack f r = .ok u r') :
    f.size < 4294967296 ∧ r' = r.plus (entryCode r.pool.calleeSaveUsed f.size.toNat) := by
  unfold enterStack at h
  rw [get_bind_ok] at h
  by_cases hsize : 0 < f.size
  · simp only [hf, hsize, preserved, Bool.false_eq_true, Bool.not_false, ↓reduceIte,
      bind_ok, pushWord_ok, emit_ok, loadCount_ok, pushWords_ok, List.forM_eq_forM] at h
    obtain ⟨-, _, rfl, -, _, ⟨-, rfl⟩, -, _, ⟨w, hw, rfl⟩, -, _, ⟨-, rfl⟩, -, _, rfl, rfl⟩ := h
    obtain ⟨-, hlt, rfl⟩ := ofInt?_eq_some hw
    simp [hlt, entryCode, roomCode, hsize]
  · simp only [hf, hsize, preserved, Bool.false_eq_true, Bool.not_false, ↓reduceIte,
      bind_ok, pushWord_ok, emit_ok, pushWords_ok, List.forM_eq_forM] at h
    obtain ⟨-, _, rfl, -, _, ⟨-, rfl⟩, -, _, rfl, rfl⟩ := h
    have hroom : roomCode f.size.toNat = [] := if_neg (by omega)
    exact ⟨by omega, by simp [entryCode, hroom]⟩

/-- The code of the exit of a function. -/
theorem exitStack_ok {f : StackFrame} (hf : f.interrupt = false) {r r' : Routine} {u : Unit}
    (h : exitStack f r = .ok u r') : r' = r.plus (exitCode r.pool.calleeSaveUsed) := by
  unfold exitStack at h
  rw [get_bind_ok] at h
  simp only [hf, preserved, Bool.false_eq_true, ↓reduceIte, bind_ok, popWord_ok, emit_ok,
    popWords_ok, List.forM_eq_forM] at h
  obtain ⟨-, _, rfl, -, _, rfl, -, _, ⟨-, rfl⟩, -, _, rfl, -, rfl⟩ := h
  simp [exitCode]

/-- A completed routine with a stack frame is its label, whatever the entry emits, the body, the exit
label, and whatever the exit emits. -/
theorem finish_stack_ok {r r' : Routine} {f : StackFrame} {code : List Directive}
    (hframe : r.frame = .stack f) (h : finish r = .ok code r') :
    ∃ r₀ r₁ : Routine, r₀.pool = r.pool ∧ r₀.calls = r.calls ∧ r₀.data = r.data ∧
      r₀.code.toList = [.label r.name] ∧ enterStack f r₀ = .ok () r₁ ∧
      exitStack f (r₁.plus (r.code.toList ++ [.label r.exit])) = .ok () r' ∧
      code = r'.code.toList := by
  obtain ⟨enter, leave, hencloses, r₀, r₁, hcode, hpool, hcalls, hdata, -, henter, hexit, rfl⟩ := finish_cases h
  rw [hframe] at hencloses
  cases hencloses with
  | stack => exact ⟨r₀, r₁, hpool, hcalls, hdata, hcode, henter, hexit, rfl⟩

/-- A completed function is its label, the entry, the body, the exit label and the exit. -/
theorem finish_ok {r r' : Routine} {f : StackFrame} {code : List Directive}
    (hframe : r.frame = .stack f) (hf : f.interrupt = false) (h : finish r = .ok code r') :
    f.size < 4294967296 ∧
      code = .label r.name :: (entryCode r.pool.calleeSaveUsed f.size.toNat ++
        (r.code.toList ++ .label r.exit :: exitCode r.pool.calleeSaveUsed)) := by
  obtain ⟨r₀, r₁, hpool, -, -, hcode, henter, hexit, rfl⟩ := finish_stack_ok hframe h
  obtain ⟨hsize, rfl⟩ := enterStack_ok hf henter
  obtain rfl := exitStack_ok hf hexit
  exact ⟨hsize, by simp [hcode, hpool]⟩

/-! ## Running the entry -/

/-- The entry takes two words for each saved register and at least five more. -/
@[simp] theorem totalSize_entryCode (saved : List Register) (n : Nat) :
    totalSize (entryCode saved n) = totalSize (roomCode n) + 2 * saved.length + 5 := by
  simp [entryCode]
  omega

/-- The words below the stack pointer `s.stack` of a caller by which an activation finds back: the
return address, then behind the room of the frame the saved registers and the frame pointer. -/
structure Linked (saved : List Register) (n : Nat) (s t : State) : Prop where
  stack : t.stack + (n + saved.length + 2) = s.stack
  address : t.word (s.stack - 1) = s.reg .result
  saved : ∀ i q, saved[i]? = some q → t.word (s.stack - 2 - n - i) = s.reg q
  frame : t.word t.stack = UInt32.ofNat (s.stack - 1)

/-- What the entry of a function leaves behind. -/
structure Entered (saved : List Register) (n : Nat) (s t : State) : Prop
    extends Linked saved n s t where
  reg : ∀ q, q ≠ .sp → q ≠ scratchFrame → q ≠ scratchSize → t.reg q = s.reg q
  above : ∀ x, s.stack ≤ x → t.word x = s.word x
  below : ∀ x, x < t.stack → t.word x = s.word x
  size : t.memory.size = s.memory.size
  interrupted : t.interrupted = s.interrupted

/-- The registers that a callee has to preserve are neither the stack pointer nor scratch. -/
theorem ne_of_isCalleeSave {q : Register} (h : q.isCalleeSave = true) :
    q.toNat < 64 ∧ q ≠ .sp ∧ q ≠ scratchFrame ∧ q ≠ scratchSize := by
  simp only [Register.isCalleeSave, Bool.and_eq_true, decide_eq_true_eq] at h
  obtain ⟨hlow, hhigh⟩ := h
  refine ⟨by omega, ?_, ?_, ?_⟩
  all_goals
    rintro rfl
    revert hlow hhigh
    decide

/-- The registers that a callee has to preserve can be written. -/
theorem writable_of_isCalleeSave {q : Register} (h : q.isCalleeSave = true) : q.Writable := by
  simp only [Register.isCalleeSave, Bool.and_eq_true, decide_eq_true_eq] at h
  exact Register.writable_of_lt (by omega)

section Running

variable {image : Image} (handlers : Handlers) {a n : Nat} {saved : List Register} {s : State}

/-- Making room moves the stack pointer and uses the register of the size. -/
theorem reaches_room (hp : Placed image a (roomCode n)) (hs : s.pc = UInt32.ofNat a)
    (hn : n < 4294967296) (hlow : n ≤ s.stack) (hone : s.reg .one = 1) :
    ∃ t, Reaches image handlers s t ∧ t.pc = UInt32.ofNat (a + totalSize (roomCode n)) ∧
      t.stack + n = s.stack ∧ (∀ q, q ≠ .sp → q ≠ scratchSize → t.reg q = s.reg q) ∧
      t.memory = s.memory ∧ t.interrupted = s.interrupted := by
  unfold roomCode at hp ⊢
  split at hp
  · next hpos =>
    rw [if_pos hpos]
    obtain ⟨hconstant, hsub, -⟩ := hp
    let s₁ := s.assign scratchSize (UInt32.ofNat n) (UInt32.ofNat (a + 2))
    have hwritable : scratchSize.Writable := ⟨by decide, by decide⟩
    have hone₁ : s₁.reg .one = 1 := Machine.one_assign hwritable hone
    have hsp : s₁.reg .sp = s.reg .sp := State.reg_assign_of_ne _ _ _ _ _ (by decide)
    have hsize : s₁.reg scratchSize = UInt32.ofNat n := State.reg_assign_self _ _ _ _ (by decide)
    have hrun₁ : Reaches image handlers s s₁ :=
      Machine.reaches_constant handlers hconstant rfl hs hwritable hone
    have hrun₂ : Reaches image handlers s₁
        (s₁.assign .sp (s.reg .sp - UInt32.ofNat n) (UInt32.ofNat (a + 3))) :=
      Machine.reaches_binary handlers hsub rfl (by simp [Machine.binary, hsp, hsize])
        Register.writable_sp (by decide) (by decide) hone₁
    have hnat : (UInt32.ofNat n).toNat = n := UInt32.toNat_ofNat_of_lt' hn
    refine ⟨_, hrun₁.trans hrun₂, by simp, ?_, ?_, rfl, rfl⟩
    · have hle : UInt32.ofNat n ≤ s.reg .sp := by
        rw [UInt32.le_iff_toNat_le, hnat]
        exact hlow
      rw [State.stack_assign_sp, UInt32.toNat_sub_of_le _ _ hle, hnat]
      exact Nat.sub_add_cancel hlow
    · intro q hsp hsize
      rw [State.reg_assign_of_ne _ _ _ _ _ hsp, State.reg_assign_of_ne _ _ _ _ _ hsize]
  · next hzero =>
    rw [if_neg hzero]
    exact ⟨s, .refl s, by simpa using hs, by omega, by simp, rfl, rfl⟩

/-- Running the entry of a function. -/
theorem reaches_entry (hp : Placed image a (entryCode saved n)) (hs : s.pc = UInt32.ofNat a)
    (hsaved : ∀ q ∈ saved, q.isCalleeSave = true) (hn : n < 4294967296)
    (hlow : n + saved.length + 2 ≤ s.stack) (hhigh : s.stack ≤ s.memory.size)
    (hone : s.reg .one = 1) :
    ∃ t, Reaches image handlers s t ∧ t.pc = UInt32.ofNat (a + totalSize (entryCode saved n)) ∧
      Entered saved n s t := by
  simp only [entryCode, List.append_assoc, List.cons_append, Machine.placed_append,
    Machine.placed_cons, Machine.totalSize_pushCode, Machine.size_instruction] at hp
  obtain ⟨hpush, hmov, hroom, hsaves, hlast⟩ := hp
  have hkept (q : Register) (hq : q ∈ saved) := ne_of_isCalleeSave (hsaved q hq)
  obtain ⟨s₁, hrun₁, hpc₁, h₁⟩ :=
    Machine.reaches_push handlers hpush hs (by decide) (by decide) (by omega) hhigh hone
  have hone₁ := hrun₁.one hone
  have hwritable : scratchFrame.Writable := ⟨by decide, by decide⟩
  have hrun₂ := Machine.reaches_mov handlers hmov hpc₁ hwritable (by decide) hone₁
  have hone₂ := hrun₂.one hone₁
  have hstack₁ := h₁.stack
  simp only [List.length_singleton] at hstack₁
  have hstack₂ := State.stack_assign_of_ne s₁ scratchFrame (s₁.reg .sp) (UInt32.ofNat (a + 2 + 1))
    (by decide)
  obtain ⟨s₃, hrun₃, hpc₃, hstack₃, hreg₃, hmemory₃, hint₃⟩ :=
    reaches_room handlers hroom rfl hn (by omega) hone₂
  have hword₃ (x : Nat) : s₃.word x = s₁.word x := by rw [State.word, hmemory₃]; rfl
  have hone₃ := hrun₃.one hone₂
  obtain ⟨s₄, hrun₄, hpc₄, h₄⟩ := Machine.reaches_pushes handlers hsaves hpc₃
    (fun q hq => ⟨(hkept q hq).1, (hkept q hq).2.1⟩) (by omega)
    (by rw [hmemory₃, State.assign_memory, h₁.size]; omega) hone₃
  have hstack₄ := h₄.stack
  simp only [List.length_map] at hstack₄
  obtain ⟨s₅, hrun₅, hpc₅, h₅⟩ := Machine.reaches_push handlers hlast
    (by rw [hpc₄, Machine.totalSize_pushes]) (by decide) (by decide) (by omega)
    (by rw [h₄.size, hmemory₃, State.assign_memory, h₁.size]; omega) (hrun₄.one hone₃)
  have hstack₅ := h₅.stack
  simp only [List.length_singleton] at hstack₅
  have hreg (q : Register) (hsp : q ≠ .sp) (hframe : q ≠ scratchFrame) (hsize : q ≠ scratchSize) :
      s₃.reg q = s.reg q := by
    rw [hreg₃ q hsp hsize, State.reg_assign_of_ne _ _ _ _ _ hframe, h₁.reg q hsp]
  refine ⟨s₅, hrun₁.trans (hrun₂.trans (hrun₃.trans (hrun₄.trans hrun₅))), ?_, ?_⟩
  · rw [hpc₅, totalSize_entryCode, Machine.totalSize_pushes]
    congr 1
    omega
  refine ⟨⟨by omega, ?address, ?pushes, ?frame⟩, ?reg, ?above, ?below, ?size,
    ?interrupted⟩
  case address =>
    rw [h₅.above _ (by omega), h₄.above _ (by omega), hword₃, ← Nat.sub_zero (s.stack - 1)]
    exact h₁.pushed 0 _ rfl
  case frame =>
    have hword : s₅.word s₅.stack = s₄.reg scratchFrame := by
      rw [show s₅.stack = s₄.stack - 1 - 0 by omega]
      exact h₅.pushed 0 _ rfl
    rw [hword, h₄.reg _ (by decide), hreg₃ _ (by decide) (by decide),
      State.reg_assign_self _ _ _ _ (by decide), show s.stack - 1 = s₁.stack by omega, State.stack,
      UInt32.ofNat_toNat]
  case pushes =>
    intro i q hq
    have hlt : i < saved.length := (List.getElem?_eq_some_iff.1 hq).1
    obtain ⟨-, hsp, hframe, hsize⟩ := hkept q (List.mem_of_getElem? hq)
    rw [h₅.above _ (by omega), show s.stack - 2 - n - i = s₃.stack - 1 - i by omega]
    exact h₄.pushed i _ (by rw [List.getElem?_map, hq, Option.map_some, hreg q hsp hframe hsize])
  case reg =>
    intro q hsp hframe hsize
    rw [h₅.reg q hsp, h₄.reg q hsp, hreg q hsp hframe hsize]
  case above =>
    intro x hx
    rw [h₅.above x (by omega), h₄.above x (by omega), hword₃, h₁.above x hx]
  case below =>
    intro x hx
    rw [h₅.below x hx, h₄.below x (by omega), hword₃, h₁.below x (by omega)]
  case size => rw [h₅.size, h₄.size, hmemory₃, State.assign_memory, h₁.size]
  case interrupted => rw [h₅.interrupted, h₄.interrupted, hint₃, State.assign_interrupted,
    h₁.interrupted]

/-- Running the exit of a function. -/
theorem reaches_exit {t : State} (hp : Placed image a (exitCode saved)) (ht : t.pc = UInt32.ofNat a)
    (hlinked : Linked saved n s t) (hsaved : ∀ q ∈ saved, q.isCalleeSave = true)
    (hnodup : saved.Nodup) (hhigh : s.stack ≤ t.memory.size) (hone : t.reg .one = 1) :
    ∃ u, Reaches image handlers t u ∧ u.pc = s.reg .result ∧ u.reg .sp = s.reg .sp ∧
      (∀ q ∈ saved, u.reg q = s.reg q) ∧
      (∀ q, q ≠ .sp → q ≠ scratchFrame → q ∉ saved → u.reg q = t.reg q) ∧
      u.memory = t.memory ∧ u.interrupted = t.interrupted := by
  simp only [exitCode, List.append_assoc, List.cons_append, Machine.placed_append,
    Machine.placed_cons, Machine.totalSize_popCode, Machine.totalSize_pops, List.length_reverse,
    Machine.size_instruction, Machine.placed_nil, and_true] at hp
  obtain ⟨hpop, hsaves, hmov, hlast, hjmp⟩ := hp
  have hstack := hlinked.stack
  have hbound : s.stack < 4294967296 := (s.reg .sp).toNat_lt
  have hwritable : scratchFrame.Writable := ⟨by decide, by decide⟩
  obtain ⟨t₁, hrun₁, hpc₁, h₁⟩ := Machine.reaches_pop handlers hpop ht hwritable (by decide)
    (by omega) (by omega) hone
  have hone₁ := hrun₁.one hone
  have hstack₁ := h₁.stack
  simp only [List.length_singleton] at hstack₁
  have hkept (q : Register) (hq : q ∈ saved.reverse) : q.Writable ∧ q ≠ .sp := by
    have hq := hsaved q (List.mem_reverse.1 hq)
    exact ⟨writable_of_isCalleeSave hq, (ne_of_isCalleeSave hq).2.1⟩
  obtain ⟨t₂, hrun₂, hpc₂, h₂⟩ := Machine.reaches_pops handlers hsaves hpc₁ hkept
    (List.pairwise_reverse.2 (hnodup.imp Ne.symm))
    (by rw [List.length_reverse, h₁.memory]; omega) (by rw [List.length_reverse]; omega) hone₁
  have hone₂ := hrun₂.one hone₁
  have hframe₂ : t₂.reg scratchFrame = UInt32.ofNat (s.stack - 1) := by
    have hnot : scratchFrame ∉ saved.reverse := fun h =>
      (ne_of_isCalleeSave (hsaved _ (List.mem_reverse.1 h))).2.2.1 rfl
    rw [h₂.reg _ (by decide) hnot, h₁.popped 0 _ rfl, Nat.add_zero, hlinked.frame]
  have hrun₃ := Machine.reaches_mov handlers hmov (by rw [hpc₂, List.length_reverse])
    Register.writable_sp (by decide) hone₂
  rw [hframe₂] at hrun₃
  have hone₃ := hrun₃.one hone₂
  generalize hs₃ : t₂.assign .sp (UInt32.ofNat (s.stack - 1)) _ = t₃ at hrun₃ hone₃
  have hstack₃ : t₃.stack = s.stack - 1 := by
    rw [← hs₃, State.stack_assign_sp,
      UInt32.toNat_ofNat_of_lt' (Nat.lt_of_le_of_lt (Nat.sub_le _ _) hbound)]
  have hmemory₃ : t₃.memory = t.memory := by
    rw [← hs₃, State.assign_memory, h₂.memory, h₁.memory]
  have hpc₃ : t₃.pc = UInt32.ofNat (a + 2 + 2 * saved.length + 1) := by rw [← hs₃]; rfl
  obtain ⟨t₄, hrun₄, hpc₄, h₄⟩ := Machine.reaches_pop handlers hlast hpc₃ hwritable (by decide)
    (by rw [hmemory₃]; omega) (by omega) hone₃
  have hone₄ := hrun₄.one hone₃
  have hframe₄ : t₄.reg scratchFrame = s.reg .result := by
    rw [h₄.popped 0 _ rfl, Nat.add_zero, hstack₃, State.word, hmemory₃]
    exact hlinked.address
  have hrun₅ := Machine.reaches_jmp handlers hjmp hpc₄ (by decide) hone₄
  rw [hframe₄] at hrun₅
  refine ⟨_, hrun₁.trans (hrun₂.trans (hrun₃.trans (hrun₄.trans hrun₅))), rfl, ?_, ?_, ?_, ?_, ?_⟩
  · have hstack₄ := h₄.stack
    rw [hstack₃, List.length_singleton] at hstack₄
    rw [State.goto_reg, ← UInt32.toNat_inj]
    change t₄.stack = s.stack
    omega
  · intro q hq
    obtain ⟨-, hsp, hscratch, -⟩ := ne_of_isCalleeSave (hsaved q hq)
    obtain ⟨i, hi, rfl⟩ := List.getElem_of_mem hq
    have hrev : saved.reverse[saved.length - 1 - i]? = some saved[i] := by
      rw [List.getElem?_reverse (by omega), List.getElem?_eq_some_iff]
      exact ⟨by omega, by congr 1; omega⟩
    rw [State.goto_reg, h₄.reg _ hsp (by simpa using hscratch), ← hs₃,
      State.reg_assign_of_ne _ _ _ _ _ hsp, h₂.popped _ _ hrev, State.word, h₁.memory]
    rw [show t₁.stack + (saved.length - 1 - i) = s.stack - 2 - n - i by omega]
    exact hlinked.saved i _ (List.getElem?_eq_getElem hi)
  · intro q hsp hscratch hq
    rw [State.goto_reg, h₄.reg _ hsp (by simpa using hscratch), ← hs₃,
      State.reg_assign_of_ne _ _ _ _ _ hsp, h₂.reg q hsp (by simpa using hq),
      h₁.reg q hsp (by simpa using hscratch)]
  · rw [State.goto_memory, h₄.memory, hmemory₃]
  · rw [State.goto_interrupted, h₄.interrupted, ← hs₃, State.assign_interrupted, h₂.interrupted,
      h₁.interrupted]

end Running

/-! ## The contract -/

/-- A register is the register of its number. -/
theorem ofNat_toNat (q : Register) : Register.ofNat q.toNat = q := by
  cases q
  simp [Register.ofNat, Register.toNat]

/-- Every register that a callee has to preserve can be taken. -/
theorem mem_allocatable_of_isCalleeSave {q : Register} (h : q.isCalleeSave = true) :
    q ∈ Pool.allocatable := by
  simp only [Register.isCalleeSave, Bool.and_eq_true, decide_eq_true_eq] at h
  refine List.mem_map.2 ⟨q.toNat - 1, List.mem_range.2 (by omega), ?_⟩
  rw [Nat.sub_add_cancel (by omega), ofNat_toNat]

/-- The saved registers are the callee-save ones that were ever taken. -/
theorem mem_calleeSaveUsed {p : Pool} {q : Register} :
    q ∈ p.calleeSaveUsed ↔ q.isCalleeSave = true ∧ q ∈ p.ever := by
  simp only [Pool.calleeSaveUsed, Pool.used, List.mem_filter, List.contains_iff_mem]
  exact ⟨fun h => ⟨h.2, h.1.2⟩, fun h => ⟨⟨mem_allocatable_of_isCalleeSave h.1, h.2⟩, h.1⟩⟩

/-- No register is saved twice. -/
theorem nodup_calleeSaveUsed (p : Pool) : p.calleeSaveUsed.Nodup :=
  (Pool.nodup_allocatable.filter _).filter _

/-- A function that is entered with its frame in memory below the stack pointer comes to its body
without a change to the words of its caller. Once the body arrives at the exit with the stack
pointer of its start, has written no callee-save register that the routine never took, and has left
the return address, the saved registers and the saved frame pointer as they were, the function
returns: the stack pointer and the callee-save registers are those of the entry, the return register
and memory those of the body. -/
theorem function_activation {r r' : Routine} {f : StackFrame} {code : List Directive}
    {image : Image} (handlers : Handlers) {a : Nat} {s : State}
    (hframe : r.frame = .stack f) (hf : f.interrupt = false) (hfinish : finish r = .ok code r')
    (hp : Placed image a code) (hpc : image.label? r.name = some s.pc) (hone : s.reg .one = 1)
    (hlow : f.size.toNat + r.pool.calleeSaveUsed.length + 2 ≤ s.stack)
    (hhigh : s.stack ≤ s.memory.size) :
    ∃ t, Reaches image handlers s t ∧
      t.pc = UInt32.ofNat (a + totalSize (entryCode r.pool.calleeSaveUsed f.size.toNat)) ∧
      (∀ x, s.stack ≤ x → t.word x = s.word x) ∧
      ∀ u, Reaches image handlers t u → image.label? r.exit = some u.pc → u.reg .sp = t.reg .sp →
        (∀ q, q.isCalleeSave = true → q ∉ r.pool.ever → u.reg q = t.reg q) →
        (∀ x, x + 1 = s.stack ∨ t.stack ≤ x ∧ x ≤ t.stack + r.pool.calleeSaveUsed.length →
          u.word x = t.word x) →
        ∃ v, Reaches image handlers u v ∧ v.pc = s.reg .result ∧ v.reg .sp = s.reg .sp ∧
          (∀ q, q.isCalleeSave = true → v.reg q = s.reg q) ∧ v.reg .result = u.reg .result ∧
          v.memory = u.memory := by
  obtain ⟨hsize, rfl⟩ := finish_ok hframe hf hfinish
  simp only [Machine.placed_cons, Machine.placed_append, Machine.size_label, Nat.add_zero] at hp
  obtain ⟨hlabel, hentry, -, hexitLabel, hexit⟩ := hp
  have hsaved (q : Register) (hq : q ∈ r.pool.calleeSaveUsed) : q.isCalleeSave = true :=
    (mem_calleeSaveUsed.1 hq).1
  have hpc : s.pc = UInt32.ofNat a := Option.some.inj (hpc.symm.trans hlabel)
  obtain ⟨t, hst, htpc, ht⟩ :=
    reaches_entry handlers hentry hpc hsaved (by omega) hlow hhigh hone
  refine ⟨t, hst, htpc, ht.above, fun u htu hupc hsp hregs hwords => ?_⟩
  have hstack : u.stack = t.stack := by rw [State.stack, hsp, State.stack]
  have hlinked : Linked r.pool.calleeSaveUsed f.size.toNat s u := by
    have hts := ht.stack
    refine ⟨by omega, ?_, fun i q hq => ?_, ?_⟩
    · rw [hwords _ (.inl (by omega)), ht.address]
    · have hlt : i < r.pool.calleeSaveUsed.length := (List.getElem?_eq_some_iff.1 hq).1
      rw [hwords _ (.inr (by omega)), ht.saved i q hq]
    · rw [hstack, hwords _ (.inr (by omega)), ht.frame]
  have hupc : u.pc = _ := Option.some.inj (hupc.symm.trans hexitLabel)
  obtain ⟨v, huv, hvpc, hvsp, hvsaved, hvreg, hvmemory, -⟩ :=
    reaches_exit handlers hexit hupc hlinked hsaved (nodup_calleeSaveUsed _)
      (by rw [htu.size, ht.size]; exact hhigh) (htu.one (hst.one hone))
  refine ⟨v, huv, hvpc, hvsp, fun q hq => ?_, ?_, hvmemory⟩
  · obtain ⟨-, hnsp, hnframe, hnsize⟩ := ne_of_isCalleeSave hq
    by_cases hmem : q ∈ r.pool.calleeSaveUsed
    · exact hvsaved q hmem
    · have hever : q ∉ r.pool.ever := fun h => hmem (mem_calleeSaveUsed.2 ⟨hq, h⟩)
      rw [hvreg q hnsp hnframe hmem, hregs q hq hever, ht.reg q hnsp hnframe hnsize]
  · have hnot : Register.result ∉ r.pool.calleeSaveUsed := fun h =>
      absurd (hsaved _ h) (by decide)
    exact hvreg _ (by decide) (by decide) hnot

/-- A function with a frame of two words whose body overwrites `r31` and returns 5. -/
def clobbering : Routine :=
  { Routine.function "f" [] false with
    frame := .stack { size := 2 }
    pool := { ever := [.ofNat 31] }
    code := #[.constant (.ofNat 31) (.immediate 5), ins .mov [.result, .ofNat 31]] }

/-- The state in which `clobbering` is entered: it is called from address 77 with 9 in `r31`. -/
def clobberingEntry (memory : Array Word) : State :=
  { registers := ((((Vector.replicate 64 0).set! 0 77).set! 31 9).set! 62 1).set! 63 64
    memory
    pc := 0
    interrupted := [] }

/-- The body of `clobbering` runs, and the function returns with `r31` restored. -/
theorem function_activation_clobbering :
    ∃ code r' image, finish clobbering = .ok code r' ∧ Image.assemble code 64 = .ok image ∧
      ∃ v, Reaches image [] (clobberingEntry image.memory) v ∧ v.pc = 77 ∧ v.stack = 64 ∧
        v.reg (.ofNat 31) = 9 ∧ v.reg .result = 5 := by
  obtain ⟨code, r', hfinish⟩ : ∃ code r', finish clobbering = .ok code r' := ⟨_, _, rfl⟩
  obtain ⟨-, hcode⟩ := finish_ok (r := clobbering) rfl rfl hfinish
  obtain ⟨image, himage⟩ : ∃ image, Image.assemble code 64 = .ok image := by
    rw [hcode]
    exact ⟨_, rfl⟩
  refine ⟨code, r', image, hfinish, himage, ?_⟩
  have hp := Machine.placed_of_assemble himage (by rw [hcode]; decide)
  have hstack : (clobberingEntry image.memory).stack = 64 := rfl
  have hsize : (clobberingEntry image.memory).memory.size = 64 :=
    Machine.size_memory_of_assemble himage
  obtain ⟨t, hst, htpc, -, hreturn⟩ := function_activation [] (r := clobbering)
    (s := clobberingEntry image.memory) rfl rfl hfinish hp (by rw [hcode] at hp; exact hp.1) rfl
    (by rw [hstack]; decide) (Nat.le_of_eq (hstack.trans hsize.symm))
  rw [hcode] at hp
  simp only [Machine.placed_cons, Machine.placed_append] at hp
  obtain ⟨-, -, ⟨hconstant, hmov, -⟩, hexit, -⟩ := hp
  have hone : t.reg .one = 1 := hst.one rfl
  have hwritable : (Register.ofNat 31).Writable := ⟨by decide, by decide⟩
  have hrun₁ := Machine.reaches_constant [] hconstant rfl (by rw [htpc]; rfl) hwritable hone
  have hrun₂ := Machine.reaches_mov [] hmov rfl Register.writable_result (by decide)
    (hrun₁.one hone)
  generalize hu : State.assign (t.assign (.ofNat 31) _ _) .result _ _ = u at hrun₂
  have hkept (q : Register) (hresult : q ≠ .result) (hother : q ≠ .ofNat 31) :
      u.reg q = t.reg q := by
    rw [← hu, State.reg_assign_of_ne _ _ _ _ _ hresult, State.reg_assign_of_ne _ _ _ _ _ hother]
  have hsaved (q : Register) (hq : q.isCalleeSave = true) (hever : q ∉ clobbering.pool.ever) :
      u.reg q = t.reg q := by
    refine hkept q ?_ fun h => hever (by rw [h]; decide)
    rintro rfl
    exact absurd hq (by decide)
  obtain ⟨v, huv, hpc, hsp, hregs, hresult, -⟩ := hreturn u (hrun₁.trans hrun₂)
    (by rw [← hu]; exact hexit) (hkept .sp (by decide) (by decide)) hsaved
    (by rw [← hu]; exact fun _ _ => rfl)
  refine ⟨v, hst.trans (hrun₁.trans (hrun₂.trans huv)), hpc, ?_, ?_, ?_⟩
  · rw [State.stack, hsp]
    rfl
  · rw [hregs _ (by decide)]
    rfl
  · rw [hresult, ← hu, State.reg_assign_self _ _ _ _ (by decide),
      State.reg_assign_self _ _ _ _ (by decide)]

/-- A routine that is completed and laid out behind some code: its code, what it is then, and the image. -/
def laidOut? (x : Gen (List Directive)) (r : Routine) (front : List Directive) (memory : Nat) :
    Option (List Directive × Routine × Image) :=
  match x r with
  | .ok code r' =>
    match Image.assemble (front ++ code) memory with
    | .ok image => some (code, r', image)
    | .error _ => none
  | .error _ _ => none

/-- What a run over a routine that is laid out comes to can be computed. -/
theorem reaches_of_laidOut {x : Gen (List Directive)} {r : Routine} {front : List Directive} {memory n : Nat}
    {handlers : Machine.Handlers} {s : Image → State} {P : Image → State → Bool}
    (h : (laidOut? x r front memory).any
      (fun p => (Machine.advance p.2.2 handlers n (s p.2.2)).any (P p.2.2)) = true) :
    ∃ code r' image t, x r = .ok code r' ∧ Image.assemble (front ++ code) memory = .ok image ∧
      Reaches image handlers (s image) t ∧ P image t = true := by
  obtain ⟨⟨code, r', image⟩, hlaid, h⟩ := (Option.any_eq_true _ _).1 h
  obtain ⟨t, hrun, hP⟩ := (Option.any_eq_true _ _).1 h
  unfold laidOut? at hlaid
  cases hx : x r with
  | error e r' =>
    rw [hx] at hlaid
    cases hlaid
  | ok code' r'' =>
    cases himage : Image.assemble (front ++ code') memory with
    | error e =>
      simp only [hx, himage] at hlaid
      cases hlaid
    | ok image' =>
      simp only [hx, himage] at hlaid
      cases hlaid
      exact ⟨code, r', image, t, rfl, himage, Machine.reaches_of_advance hrun, hP⟩

/-- A frame that does not fit below the stack pointer wraps around: the entry of a function with a
temporary of 4294967293 words, entered with the stack pointer at 40, overwrites word 41. -/
theorem wide_frame_overwrites_caller :
    ∃ code r' image s t,
      (temporary 4294967293 >>= fun _ => finish) (Routine.function "f" [] false) = .ok code r' ∧
      Image.assemble code 64 = .ok image ∧ s = (Machine.initial image 0).assign .sp 40 0 ∧
      image.label? "f" = some s.pc ∧ Reaches image [] s t ∧ image.label? "f$exit" = some t.pc ∧
      ∃ x, s.stack ≤ x ∧ t.word x ≠ s.word x := by
  obtain ⟨code, r', image, t, hcode, himage, hrun, hP⟩ := @reaches_of_laidOut
    (temporary 4294967293 >>= fun _ => finish) (.function "f" [] false) [] 64 7 []
    (fun image => (Machine.initial image 0).assign .sp 40 0)
    (fun image t => decide (image.label? "f" = some 0 ∧ image.label? "f$exit" = some t.pc ∧
      ((Machine.initial image 0).assign .sp 40 0).stack ≤ 41 ∧
      t.word 41 ≠ ((Machine.initial image 0).assign .sp 40 0).word 41)) (by decide +kernel)
  obtain ⟨hstart, hexit, hstack, hword⟩ := of_decide_eq_true hP
  exact ⟨code, r', image, _, t, hcode, himage, rfl, hstart, hrun, hexit, 41, hstack, hword⟩

end Qll.Codegen
