import Qll.Proofs.Codegen.Activation
import Qll.Proofs.Codegen.Calling
import Qll.Proofs.Codegen.Lowered

/-!
# Interrupt handlers

A handler saves every register it may change above its frame, so that the code it interrupts sees no
change. Which registers these are is known only behind the body: those the body ever took, those
that entry and exit use themselves, the return register, and every caller-save register once the
body calls another routine. A body is a chain of stretches; in a stretch of its own it writes the
registers it took, and in a stretch of a called routine it relies on that routine to keep the
callee-save registers.
-/

namespace Qll.Codegen

open Assembly (Directive totalSize)
open Machine (Register Word Image Handlers State Placed Reaches Fetches ins pushCode popCode)
open Qll.Computation

/-- The entry of a handler that saves the registers `saved` and has a frame of `n` words. -/
def handlerEntryCode (saved : List Register) (n : Nat) : List Directive :=
  saved.flatMap pushCode ++ ins .sub [.sp, .sp, .one] :: ins .mov [scratchFrame, .sp] :: roomCode n ++
    pushCode scratchFrame

/-- The exit of a handler that restores the registers `saved`. -/
def handlerExitCode (saved : List Register) : List Directive :=
  popCode scratchFrame ++ ins .mov [.sp, scratchFrame] :: ins .add [.sp, .sp, .one] ::
    saved.reverse.flatMap popCode ++ [ins .rti []]

section Building

variable {r r' : Routine} {f : StackFrame} {u : Unit}

/-- The code of the entry of a handler. -/
theorem enterHandler_ok (hf : f.interrupt = true) (h : enterStack f r = .ok u r') :
    f.size < 4294967296 ∧ r' = r.plus (handlerEntryCode (preserved true r) f.size.toNat) := by
  unfold enterStack at h
  rw [get_bind_ok] at h
  by_cases hsize : 0 < f.size
  · simp only [hf, hsize, Bool.not_true, Bool.false_eq_true, ↓reduceIte,
      bind_ok, pushWord_ok, emit_ok, loadCount_ok, pushWords_ok, List.forM_eq_forM] at h
    obtain ⟨-, _, rfl, -, _, ⟨-, rfl⟩, -, _, ⟨-, rfl⟩, -, _, ⟨w, hw, rfl⟩, -, _, ⟨-, rfl⟩, rfl⟩ := h
    obtain ⟨-, hlt, rfl⟩ := ofInt?_eq_some hw
    simp [hlt, handlerEntryCode, roomCode, hsize]
  · simp only [hf, hsize, Bool.not_true, Bool.false_eq_true, ↓reduceIte,
      bind_ok, pushWord_ok, emit_ok, pushWords_ok, List.forM_eq_forM] at h
    obtain ⟨-, _, rfl, -, _, ⟨-, rfl⟩, -, _, ⟨-, rfl⟩, rfl⟩ := h
    have hroom : roomCode f.size.toNat = [] := if_neg (by omega)
    exact ⟨by omega, by simp [handlerEntryCode, hroom]⟩

/-- The code of the exit of a handler. -/
theorem exitHandler_ok (hf : f.interrupt = true) (h : exitStack f r = .ok u r') :
    r' = r.plus (handlerExitCode (preserved true r)) := by
  unfold exitStack at h
  rw [get_bind_ok] at h
  simp only [hf, ↓reduceIte, bind_ok, popWord_ok, emit_ok, popWords_ok, List.forM_eq_forM] at h
  obtain ⟨-, _, rfl, -, _, ⟨-, rfl⟩, -, _, ⟨-, rfl⟩, -, _, rfl, -, rfl⟩ := h
  simp [handlerExitCode]

/-- Entry and exit agree on the registers to preserve: they depend on registers and calls only. -/
theorem preserved_congr (interrupt : Bool) (hpool : r'.pool = r.pool) (hcalls : r'.calls = r.calls) :
    preserved interrupt r' = preserved interrupt r := by
  simp only [preserved, hpool, hcalls]

/-- A completed handler is its label, the entry, the body, the exit label and the exit. -/
theorem finish_handler_ok {code : List Directive} (hframe : r.frame = .stack f)
    (hf : f.interrupt = true) (h : finish r = .ok code r') :
    f.size < 4294967296 ∧
      code = .label r.name :: (handlerEntryCode (preserved true r) f.size.toNat ++
        (r.code.toList ++ .label r.exit :: handlerExitCode (preserved true r))) := by
  obtain ⟨r₀, r₁, hpool, hcalls, -, hcode, henter, hexit, rfl⟩ := finish_stack_ok hframe h
  obtain ⟨hsize, rfl⟩ := enterHandler_ok hf henter
  obtain rfl := exitHandler_ok hf hexit
  have hentry : preserved true r₀ = preserved true r := preserved_congr true hpool hcalls
  have hexit : ∀ a b, preserved true ((r₀.plus a).plus b) = preserved true r := fun a b =>
    preserved_congr true hpool hcalls
  exact ⟨hsize, by rw [hexit, hentry]; simp [hcode]⟩

end Building

/-! ## The registers that are saved -/

section Saved

variable {r : Routine} {q : Register}

/-- A handler saves the return register, and of the others those that entry and exit use, those
that were ever taken, and, if it calls, the caller-save ones. -/
theorem mem_preserved_handler :
    q ∈ preserved true r ↔ q = .result ∨ q ∈ Pool.allocatable ∧
      (q = scratchFrame ∨ q = scratchSize ∨ q ∈ r.pool.ever ∨
        r.calls = true ∧ q.isCallerSave = true) := by
  simp only [preserved, ↓reduceIte, Pool.used, callerSave, List.mem_filter, List.mem_cons,
    Bool.or_eq_true, beq_iff_eq, Bool.and_eq_true, List.contains_iff_mem]
  constructor
  · rintro ⟨rfl | hmem, hq⟩
    · exact .inl rfl
    · tauto
  · rintro (rfl | ⟨hmem, hq⟩)
    · exact ⟨.inl rfl, by simp⟩
    · exact ⟨.inr hmem, by tauto⟩

/-- No register is saved twice by a handler. -/
theorem nodup_preserved_handler (r : Routine) : (preserved true r).Nodup := by
  have h : (Register.result :: Pool.allocatable).Nodup :=
    List.nodup_cons.2 ⟨fun h => Pool.ne_result_of_mem h rfl, Pool.nodup_allocatable⟩
  rw [preserved, if_pos rfl]
  exact h.filter _

/-- The registers that a handler saves can be written, and the stack pointer is not among them. -/
theorem writable_preserved_handler (h : q ∈ preserved true r) : q.Writable ∧ q ≠ .sp := by
  rcases mem_preserved_handler.1 h with rfl | ⟨hmem, -⟩
  · exact ⟨Register.writable_result, by decide⟩
  · exact ⟨Pool.writable_of_mem hmem, Pool.ne_sp_of_mem hmem⟩

end Saved

/-! ## Running entry and exit -/

/-- The words below the stack pointer `s.stack` of the interrupted code by which a handler finds
back: the saved registers, and below an unused word and the room of the frame the frame pointer. -/
structure Kept (saved : List Register) (n : Nat) (s t : State) : Prop where
  stack : t.stack + (saved.length + n + 2) = s.stack
  registers : ∀ i q, saved[i]? = some q → t.word (s.stack - 1 - i) = s.reg q
  frame : t.word t.stack = UInt32.ofNat (s.stack - 1 - saved.length)

/-- What the entry of a handler leaves behind. -/
structure HandlerEntered (saved : List Register) (n : Nat) (s t : State) : Prop
    extends Kept saved n s t where
  reg : ∀ q, q ≠ .sp → q ≠ scratchFrame → q ≠ scratchSize → t.reg q = s.reg q
  above : ∀ x, s.stack ≤ x → t.word x = s.word x
  interrupted : t.interrupted = s.interrupted

section Running

variable {image : Image} (handlers : Handlers) {a n : Nat} {saved : List Register} {s : State}

/-- Running the entry of a handler. -/
theorem reaches_handlerEntry (hp : Placed image a (handlerEntryCode saved n))
    (hs : s.pc = UInt32.ofNat a) (hsaved : ∀ q ∈ saved, q.Writable ∧ q ≠ .sp)
    (hn : n < 4294967296) (hlow : saved.length + n + 2 ≤ s.stack)
    (hhigh : s.stack ≤ s.memory.size) (hone : s.reg .one = 1) :
    ∃ t, Reaches image handlers s t ∧
      t.pc = UInt32.ofNat (a + totalSize (handlerEntryCode saved n)) ∧
      HandlerEntered saved n s t := by
  simp only [handlerEntryCode, List.append_assoc, List.cons_append, Machine.placed_append,
    Machine.placed_cons, Machine.totalSize_pushes, Machine.size_instruction] at hp
  obtain ⟨hsaves, hsub, hmov, hroom, hlast⟩ := hp
  obtain ⟨s₁, hrun₁, hpc₁, h₁⟩ := Machine.reaches_pushes handlers hsaves hs
    (fun q hq => ⟨(hsaved q hq).1.lt, (hsaved q hq).2⟩) (by omega) hhigh hone
  have hone₁ := hrun₁.one hone
  have hstack₁ := h₁.stack
  rw [List.length_map] at hstack₁
  -- The unused word, and the frame pointer.
  have hrun₂ := Machine.reaches_binary handlers hsub hpc₁ rfl Register.writable_sp (by decide)
    (by decide) hone₁
  rw [hone₁] at hrun₂
  have hone₂ := hrun₂.one hone₁
  generalize hs₂ : s₁.assign .sp (s₁.reg .sp - 1) _ = s₂ at hrun₂ hone₂
  have hstack₂ : s₂.stack = s₁.stack - 1 := by
    rw [← hs₂, State.stack_assign_sp, Machine.toNat_sub_one (by change 1 ≤ s₁.stack; omega)]
    rfl
  have hreg₂ (q : Register) (hq : q ≠ .sp) : s₂.reg q = s₁.reg q := by
    rw [← hs₂, State.reg_assign_of_ne _ _ _ _ _ hq]
  have hwritable : scratchFrame.Writable := ⟨by decide, by decide⟩
  have hrun₃ := Machine.reaches_mov handlers hmov (by rw [← hs₂]; rfl) hwritable (by decide) hone₂
  have hone₃ := hrun₃.one hone₂
  generalize hs₃ : s₂.assign scratchFrame (s₂.reg .sp) _ = s₃ at hrun₃ hone₃
  have hstack₃ : s₃.stack = s₂.stack := by rw [← hs₃, State.stack_assign_of_ne _ _ _ _ (by decide)]
  have hmemory₃ : s₃.memory = s₁.memory := by rw [← hs₃, ← hs₂]; rfl
  -- The room of the frame, and the frame pointer on top.
  obtain ⟨s₄, hrun₄, hpc₄, hstack₄, hreg₄, hmemory₄, hint₄⟩ :=
    reaches_room handlers hroom (by rw [← hs₃]; rfl) hn (by omega) hone₃
  obtain ⟨s₅, hrun₅, hpc₅, h₅⟩ := Machine.reaches_push handlers hlast hpc₄ (by decide) (by decide)
    (by omega) (by rw [hmemory₄, hmemory₃, h₁.size]; omega) (hrun₄.one hone₃)
  have hstack₅ := h₅.stack
  rw [List.length_singleton] at hstack₅
  have hword₄ (x : Nat) : s₄.word x = s₁.word x := by rw [State.word, hmemory₄, hmemory₃]; rfl
  refine ⟨s₅, hrun₁.trans (hrun₂.trans (hrun₃.trans (hrun₄.trans hrun₅))), ?_,
    ⟨⟨by omega, fun i q hq => ?_, ?_⟩, fun q hsp hframe hsize => ?_, fun x hx => ?_, ?_⟩⟩
  · rw [hpc₅]
    simp only [handlerEntryCode, List.append_assoc, List.cons_append, Machine.totalSize_append,
      Machine.totalSize_cons, Machine.totalSize_pushes, Machine.size_instruction,
      Machine.totalSize_pushCode]
    congr 1
    omega
  · have hlt : i < saved.length := (List.getElem?_eq_some_iff.1 hq).1
    rw [h₅.above _ (by omega), hword₄]
    exact h₁.pushed i _ (by rw [List.getElem?_map, hq, Option.map_some])
  · have htop : s₅.word s₅.stack = s₄.reg scratchFrame := by
      rw [show s₅.stack = s₄.stack - 1 - 0 by omega]
      exact h₅.pushed 0 _ rfl
    have hframe : s₃.reg scratchFrame = s₂.reg .sp := by
      rw [← hs₃, State.reg_assign_self _ _ _ _ (by decide)]
    rw [htop, hreg₄ _ (by decide) (by decide), hframe,
      show s.stack - 1 - saved.length = s₂.stack by omega, State.stack, UInt32.ofNat_toNat]
  · rw [h₅.reg q hsp, hreg₄ q hsp hsize, ← hs₃, State.reg_assign_of_ne _ _ _ _ _ hframe,
      hreg₂ q hsp, h₁.reg q hsp]
  · rw [h₅.above x (by omega), hword₄, h₁.above x hx]
  · rw [h₅.interrupted, hint₄, ← hs₃, State.assign_interrupted, ← hs₂, State.assign_interrupted,
      h₁.interrupted]

/-- Running the exit of a handler up to its last instruction. -/
theorem reaches_handlerExit {t : State} (hp : Placed image a (handlerExitCode saved))
    (ht : t.pc = UInt32.ofNat a) (hkept : Kept saved n s t)
    (hsaved : ∀ q ∈ saved, q.Writable ∧ q ≠ .sp) (hscratch : scratchFrame ∈ saved)
    (hnodup : saved.Nodup) (hhigh : s.stack ≤ t.memory.size) (hone : t.reg .one = 1) :
    ∃ u, Reaches image handlers t u ∧ Fetches image u (.instruction ⟨.rti, ⟨0⟩, ⟨0⟩, ⟨0⟩⟩) (u.pc + 1) ∧
      u.reg .sp = s.reg .sp ∧ (∀ q ∈ saved, u.reg q = s.reg q) ∧
      (∀ q, q ≠ .sp → q ∉ saved → u.reg q = t.reg q) ∧
      u.memory = t.memory ∧ u.interrupted = t.interrupted := by
  simp only [handlerExitCode, List.append_assoc, List.cons_append, Machine.placed_append,
    Machine.placed_cons, Machine.totalSize_popCode, Machine.totalSize_pops, List.length_reverse,
    Machine.size_instruction, Machine.placed_nil, and_true] at hp
  obtain ⟨hpop, hmov, hadd, hrestore, hrti⟩ := hp
  have hstack := hkept.stack
  have hbound : s.stack < 4294967296 := (s.reg .sp).toNat_lt
  have hwritable : scratchFrame.Writable := ⟨by decide, by decide⟩
  obtain ⟨t₁, hrun₁, hpc₁, h₁⟩ := Machine.reaches_pop handlers hpop ht hwritable (by decide)
    (by omega) (by omega) hone
  have hone₁ := hrun₁.one hone
  have hframe₁ : t₁.reg scratchFrame = UInt32.ofNat (s.stack - 1 - saved.length) := by
    rw [h₁.popped 0 _ rfl, Nat.add_zero, hkept.frame]
  have hrun₂ := Machine.reaches_mov handlers hmov hpc₁ Register.writable_sp (by decide) hone₁
  rw [hframe₁] at hrun₂
  have hone₂ := hrun₂.one hone₁
  generalize hs₂ : t₁.assign .sp (UInt32.ofNat (s.stack - 1 - saved.length)) _ = t₂ at hrun₂ hone₂
  have hrun₃ := Machine.reaches_binary handlers hadd (by rw [← hs₂]; rfl) rfl Register.writable_sp
    (by decide) (by decide) hone₂
  rw [hone₂] at hrun₃
  have hone₃ := hrun₃.one hone₂
  generalize hs₃ : t₂.assign .sp (t₂.reg .sp + 1) _ = t₃ at hrun₃ hone₃
  have hstack₃ : t₃.stack = s.stack - saved.length := by
    have hstack₂ : (t₂.reg .sp).toNat = s.stack - 1 - saved.length := by
      rw [← hs₂, State.reg_assign_self _ _ _ _ (by decide),
        UInt32.toNat_ofNat_of_lt' (by rw [UInt32.size]; omega)]
    rw [← hs₃, State.stack_assign_sp, Machine.toNat_add_one (by omega)]
    omega
  have hmemory₃ : t₃.memory = t.memory := by
    rw [← hs₃, State.assign_memory, ← hs₂, State.assign_memory, h₁.memory]
  obtain ⟨u, hrun₄, hpc₄, h₄⟩ := Machine.reaches_pops handlers hrestore (by rw [← hs₃]; rfl)
    (fun q hq => hsaved q (List.mem_reverse.1 hq)) (List.pairwise_reverse.2 (hnodup.imp Ne.symm))
    (by rw [List.length_reverse, hmemory₃]; omega) (by rw [List.length_reverse]; omega) hone₃
  have hstack₄ := h₄.stack
  rw [List.length_reverse] at hstack₄ hpc₄
  refine ⟨u, hrun₁.trans (hrun₂.trans (hrun₃.trans hrun₄)), ?_, ?_, fun q hq => ?_,
    fun q hsp hq => ?_, ?_, ?_⟩
  · have hf := hrti.fetches hpc₄
    rwa [UInt32.ofNat_add, ← hpc₄] at hf
  · rw [← UInt32.toNat_inj]
    change u.stack = s.stack
    omega
  · obtain ⟨i, hi, rfl⟩ := List.getElem_of_mem hq
    have hrev : saved.reverse[saved.length - 1 - i]? = some saved[i] := by
      rw [List.getElem?_reverse (by omega), List.getElem?_eq_some_iff]
      exact ⟨by omega, by congr 1; omega⟩
    rw [h₄.popped _ _ hrev, State.word, hmemory₃,
      show t₃.stack + (saved.length - 1 - i) = s.stack - 1 - i by omega]
    exact hkept.registers i _ (List.getElem?_eq_getElem hi)
  · have hne : q ≠ scratchFrame := fun h => hq (h ▸ hscratch)
    rw [h₄.reg q hsp (by simpa using hq), ← hs₃, State.reg_assign_of_ne _ _ _ _ _ hsp, ← hs₂,
      State.reg_assign_of_ne _ _ _ _ _ hsp, h₁.reg q hsp (by simpa using hne)]
  · rw [h₄.memory, hmemory₃]
  · rw [h₄.interrupted, ← hs₃, State.assign_interrupted, ← hs₂, State.assign_interrupted,
      h₁.interrupted]

end Running

/-! ## The body -/

/-- A call was emitted while the routine was built, and what was emitted behind it has not made the
routine forget that it calls. -/
def HasCall (r : Routine) : Prop :=
  ∃ callee arguments result r₀ out r₁, symbol r₀.name = r₀.name ∧
    (∀ arg ∈ arguments, Writes Set.univ [] arg.compile) ∧
    call callee arguments result r₀ = .ok out r₁ ∧ (r₁.calls = true → r.calls = true)

/-- A call marks the routine that emits it. -/
theorem HasCall.calls {r : Routine} (h : HasCall r) : r.calls = true := by
  obtain ⟨callee, arguments, result, r₀, out, r₁, hname, harguments, hcall, hlater⟩ := h
  have hcalling : call callee arguments result r₀.calling = .ok out r₁ := hcall
  have hknown : Known Set.univ r₀.calling :=
    ⟨hname, Set.mem_univ _, fun _ _ => Set.mem_univ _, fun _ _ _ => Set.mem_univ _⟩
  exact hlater ((Writes.call harguments _ _ _ hknown hcalling).calls rfl)

/-- A stretch of the body of a routine: the body's own code, which writes registers that the routine
took, the return register and the stack pointer, or the run of a routine that it calls. -/
inductive Stretch (image : Image) (handlers : Handlers) (r : Routine) (s t : State) : Prop
  | own (run : Reaches image handlers s t)
      (kept : ∀ q ∈ Pool.allocatable, q ∉ r.pool.ever → t.reg q = s.reg q)
  | called (words top : Nat) (run : Reaches image handlers s t) (call : HasCall r)
      (returns : Returns words top s t)

/-- The body of a routine: one stretch after the other. -/
def RunsBody (image : Image) (handlers : Handlers) (r : Routine) : State → State → Prop :=
  Relation.ReflTransGen (Stretch image handlers r)

section Body

variable {image : Image} {handlers : Handlers} {r : Routine} {s t : State}

/-- A stretch is a run. -/
theorem Stretch.reaches (h : Stretch image handlers r s t) : Reaches image handlers s t := by
  cases h with
  | own run kept => exact run
  | called words top run call returns => exact run

/-- A stretch changes no ordinary register that a handler does not save. -/
theorem Stretch.reg (h : Stretch image handlers r s t) {q : Register} (hq : q ∈ Pool.allocatable)
    (hnot : q ∉ preserved true r) : t.reg q = s.reg q := by
  simp only [mem_preserved_handler, not_or, not_and, hq, true_imp_iff] at hnot
  obtain ⟨-, -, -, hever, hcaller⟩ := hnot
  cases h with
  | own run kept => exact kept q hq hever
  | called words top run call returns =>
    have hcaller : q.isCallerSave = false := Bool.eq_false_iff.2 (hcaller call.calls)
    exact returns.saved q (isCalleeSave_of_mem hq hcaller)

/-- A body is a run. -/
theorem RunsBody.reaches (h : RunsBody image handlers r s t) : Reaches image handlers s t := by
  induction h with
  | refl => exact .refl s
  | tail _ hstretch ih => exact ih.trans hstretch.reaches

/-- A body changes no ordinary register that a handler does not save. -/
theorem RunsBody.reg (h : RunsBody image handlers r s t) {q : Register} (hq : q ∈ Pool.allocatable)
    (hnot : q ∉ preserved true r) : t.reg q = s.reg q := by
  induction h with
  | refl => rfl
  | tail _ hstretch ih => rw [hstretch.reg hq hnot, ih]

end Body

/-! ## The contract -/

/-- Two states that agree in the return register, the ordinary registers, the register that holds 1
and the stack pointer have the same registers. -/
theorem registers_eq {s t : State} (hresult : t.reg .result = s.reg .result)
    (hordinary : ∀ q ∈ Pool.allocatable, t.reg q = s.reg q) (hone : t.reg .one = s.reg .one)
    (hsp : t.reg .sp = s.reg .sp) : t.registers = s.registers := by
  have hreg (u : State) (i : Nat) (hi : i < 64) : u.reg (.ofNat i) = u.registers[i] := by
    have hnat : (Register.ofNat i).toNat = i := by
      simp only [Register.ofNat, Register.toNat, UInt8.toNat_ofNat']
      omega
    simp [State.reg, hnat, hi]
  apply Vector.ext
  intro i hi
  rw [← hreg t i hi, ← hreg s i hi]
  rcases (by omega : i = 0 ∨ (1 ≤ i ∧ i ≤ 61) ∨ i = 62 ∨ i = 63) with rfl | hmid | rfl | rfl
  · exact hresult
  · refine hordinary _ (List.mem_map.2 ⟨i - 1, List.mem_range.2 (by omega), ?_⟩)
    rw [Nat.sub_add_cancel hmid.1]
  · exact hone
  · exact hsp

/-- Interrupts are transparent. Take a completed handler that is entered by an interrupt with its
frame in memory below the stack pointer. It comes to its body without a change to the words of the
interrupted code. Once the body arrives at the exit with the stack pointer and the interrupts of its
start, and has left the saved registers and the saved frame pointer as they were, the handler
returns: the interrupted code goes on behind the interrupt with all its registers, and memory is as
the body left it. -/
theorem interrupt_transparency {r r' : Routine} {f : StackFrame} {code : List Directive}
    {image : Image} (handlers : Handlers) {a : Nat} {d x y : Register} {next : Word} {s m : State}
    (hframe : r.frame = .stack f) (hf : f.interrupt = true) (hfinish : finish r = .ok code r')
    (hp : Placed image a code) (hfetch : Fetches image s (.instruction ⟨.int, d, x, y⟩) next)
    (hstep : Machine.step image handlers s = .next m) (hpc : image.label? r.name = some m.pc)
    (hlow : (preserved true r).length + f.size.toNat + 2 ≤ s.stack)
    (hhigh : s.stack ≤ s.memory.size) :
    ∃ t, Reaches image handlers m t ∧
      t.pc = UInt32.ofNat (a + totalSize (handlerEntryCode (preserved true r) f.size.toNat)) ∧
      (∀ w, s.stack ≤ w → t.word w = s.word w) ∧
      ∀ u, RunsBody image handlers r t u → image.label? r.exit = some u.pc →
        u.reg .sp = t.reg .sp → u.interrupted = t.interrupted →
        (∀ w, w = t.stack ∨ s.stack - (preserved true r).length ≤ w ∧ w < s.stack →
          u.word w = t.word w) →
        ∃ v back, Reaches image handlers u v ∧
          Fetches image v (.instruction ⟨.rti, ⟨0⟩, ⟨0⟩, ⟨0⟩⟩) (v.pc + 1) ∧
          Machine.step image handlers v = .next back ∧ back.pc = next ∧
          back.registers = s.registers ∧ back.interrupted = s.interrupted ∧
          back.memory = u.memory := by
  obtain ⟨hsize, rfl⟩ := finish_handler_ok hframe hf hfinish
  simp only [Machine.placed_cons, Machine.placed_append, Machine.size_label, Nat.add_zero] at hp
  obtain ⟨hlabel, hentry, -, hexitLabel, hexit⟩ := hp
  obtain ⟨handler, rfl⟩ := Machine.step_int hfetch hstep
  have hone : (s.enterHandler handler next).reg .one = 1 := Machine.one_of_step hstep
  have hsaved (q : Register) (hq : q ∈ preserved true r) := writable_preserved_handler hq
  have hscratch : scratchFrame ∈ preserved true r :=
    mem_preserved_handler.2 (.inr ⟨by decide, .inl rfl⟩)
  have hresult : Register.result ∈ preserved true r := mem_preserved_handler.2 (.inl rfl)
  have hsizeScratch : scratchSize ∈ preserved true r :=
    mem_preserved_handler.2 (.inr ⟨by decide, .inr (.inl rfl)⟩)
  have hpc := Option.some.inj (hpc.symm.trans hlabel)
  obtain ⟨t, hmt, htpc, ht⟩ :=
    reaches_handlerEntry handlers hentry hpc hsaved (by omega) hlow hhigh hone
  refine ⟨t, hmt, htpc, ht.above, fun u htu hupc hsp hint hwords => ?_⟩
  have hstack : u.stack = t.stack := by rw [State.stack, hsp, State.stack]
  have hstack' : t.stack + ((preserved true r).length + f.size.toNat + 2) = s.stack := ht.stack
  have hkept : Kept (preserved true r) f.size.toNat (s.enterHandler handler next) u := by
    refine ⟨hstack ▸ ht.stack, fun i q hq => ?_, ?_⟩
    · have hlt : i < (preserved true r).length := (List.getElem?_eq_some_iff.1 hq).1
      change u.word (s.stack - 1 - i) = _
      rw [hwords _ (.inr (by omega))]
      exact ht.registers i q hq
    · rw [hstack, hwords _ (.inl rfl), ht.frame]
  have honeU : u.reg .one = 1 := htu.reaches.one (hmt.one hone)
  have hupc := Option.some.inj (hupc.symm.trans hexitLabel)
  obtain ⟨v, huv, hrti, hvsp, hvsaved, hvreg, hvmemory, hvint⟩ :=
    reaches_handlerExit handlers hexit hupc hkept hsaved hscratch (nodup_preserved_handler r)
      (by rw [htu.reaches.size, hmt.size]; exact hhigh) honeU
  have honeV : v.reg .one = 1 := huv.one honeU
  have hinterrupted : v.interrupted = next :: s.interrupted := by
    rw [hvint, hint, ht.interrupted]
    rfl
  refine ⟨v, _, huv, hrti, Machine.step_rti hrti hinterrupted (by decide) (by decide) honeV, rfl, ?_,
    rfl, hvmemory⟩
  refine registers_eq (hvsaved _ hresult) (fun q hq => ?_) (honeV.trans hone.symm) hvsp
  by_cases hmem : q ∈ preserved true r
  · exact hvsaved q hmem
  · have hsp := Pool.ne_sp_of_mem hq
    have hne (z : Register) (hz : z ∈ preserved true r) : q ≠ z := fun h => hmem (h ▸ hz)
    change v.reg q = s.reg q
    rw [hvreg q hsp hmem, htu.reg hq hmem, ht.reg q hsp (hne _ hscratch) (hne _ hsizeScratch)]
    rfl

/-- A handler with a frame of two words whose body overwrites `r3`, `r40` and the return register. -/
def busyHandler : Routine :=
  { Routine.interrupt "h" with
    frame := .stack { size := 2, interrupt := true }
    pool := { ever := [.ofNat 40, .ofNat 3] }
    code := #[.constant (.ofNat 3) (.immediate 5), ins .mov [.ofNat 40, .ofNat 3],
      ins .mov [.result, .ofNat 3]] }

/-- The state in which `busyHandler` interrupts: some registers are in use. -/
def busyInterrupted (memory : Array Word) : State :=
  { registers :=
      (((((Vector.replicate 64 0).set! 0 7).set! 3 8).set! 40 9).set! 62 1).set! 63 64
    memory
    pc := 0
    interrupted := [] }

/-- The body of `busyHandler` runs, and the interrupted code goes on with the registers it had. -/
theorem interrupt_transparency_busy :
    ∃ code r' image, finish busyHandler = .ok code r' ∧
      Image.assemble (ins .int [.ofNat 5] :: code) 64 = .ok image ∧
      ∃ back, Reaches image [(0, 1)] (busyInterrupted image.memory) back ∧ back.pc = 1 ∧
        back.registers = (busyInterrupted image.memory).registers := by
  obtain ⟨code, r', hfinish⟩ : ∃ code r', finish busyHandler = .ok code r' := ⟨_, _, rfl⟩
  obtain ⟨-, hcode⟩ := finish_handler_ok (r := busyHandler) rfl rfl hfinish
  obtain ⟨image, himage⟩ : ∃ image, Image.assemble (ins .int [.ofNat 5] :: code) 64 = .ok image := by
    rw [hcode]
    exact ⟨_, rfl⟩
  refine ⟨code, r', image, hfinish, himage, ?_⟩
  obtain ⟨hint, hp⟩ := Machine.placed_of_assemble himage (by rw [hcode]; decide)
  have hsize : (busyInterrupted image.memory).memory.size = 64 :=
    Machine.size_memory_of_assemble himage
  have hstack : (busyInterrupted image.memory).stack = 64 := rfl
  have hfetch := hint.fetches (s := busyInterrupted image.memory) rfl
  have hstep : Machine.step image [(0, 1)] (busyInterrupted image.memory) =
      .next ((busyInterrupted image.memory).enterHandler 1 1) :=
    Machine.step_of_perform hfetch rfl rfl rfl
  obtain ⟨t, hmt, htpc, -, hreturn⟩ := interrupt_transparency [(0, 1)] (r := busyHandler)
    (s := busyInterrupted image.memory) rfl rfl hfinish hp hfetch hstep
    (by rw [hcode] at hp; exact hp.1) (by rw [hstack]; decide) (Nat.le_of_eq (hstack.trans hsize.symm))
  rw [hcode] at hp
  simp only [Machine.placed_cons, Machine.placed_append] at hp
  obtain ⟨-, -, ⟨hconstant, hfirst, hsecond, -⟩, hexit, -⟩ := hp
  have hone : t.reg .one = 1 := hmt.one rfl
  have hwritable (q : Register) (hq : q ∈ busyHandler.pool.ever) : q.Writable :=
    Pool.writable_of_mem ((by decide : ∀ q ∈ busyHandler.pool.ever, q ∈ Pool.allocatable) q hq)
  have hrun₁ := Machine.reaches_constant [(0, 1)] hconstant rfl (by rw [htpc]; rfl)
    (hwritable _ (by decide)) hone
  have hrun₂ := Machine.reaches_mov [(0, 1)] hfirst rfl (hwritable _ (by decide)) (by decide)
    (hrun₁.one hone)
  have hrun₃ := Machine.reaches_mov [(0, 1)] hsecond rfl Register.writable_result (by decide)
    (hrun₂.one (hrun₁.one hone))
  have hrun := hrun₁.trans (hrun₂.trans hrun₃)
  generalize hu : State.assign (State.assign (t.assign (.ofNat 3) _ _) _ _ _) .result _ _ = u
    at hrun₃ hrun
  have hkept (q : Register) (hresult : q ≠ .result) (hlow : q ≠ .ofNat 3) (hhigh : q ≠ .ofNat 40) :
      u.reg q = t.reg q := by
    rw [← hu, State.reg_assign_of_ne _ _ _ _ _ hresult, State.reg_assign_of_ne _ _ _ _ _ hhigh,
      State.reg_assign_of_ne _ _ _ _ _ hlow]
  have hbody : RunsBody image [(0, 1)] busyHandler t u := by
    refine .single (.own hrun fun q hq hever => hkept q (Pool.ne_result_of_mem hq) ?_ ?_)
    · exact fun h => hever (by rw [h]; decide)
    · exact fun h => hever (by rw [h]; decide)
  obtain ⟨v, back, huv, -, hback, hpc, hregisters, -⟩ := hreturn u hbody (by rw [← hu]; exact hexit)
    (hkept .sp (by decide) (by decide) (by decide)) (by rw [← hu]; rfl) (by rw [← hu]; exact fun _ _ => rfl)
  exact ⟨back, .head hstep (hmt.trans (hrun.trans (huv.trans (.single hback)))), hpc, hregisters⟩

/-- A frame that does not fit below the stack pointer wraps around: the entry of a handler with a
temporary of 4294967290 words and no body, entered by an interrupt with the stack pointer at 40,
overwrites word 41 of the interrupted code. -/
theorem wide_handler_overwrites_interrupted :
    ∃ code r' image s back,
      (temporary 4294967290 >>= fun _ => finish) (Routine.interrupt "h") = .ok code r' ∧
      Image.assemble (ins .int [.ofNat 5] :: code) 64 = .ok image ∧
      s = (Machine.initial image 0).assign .sp 40 0 ∧ image.label? "h" = some 1 ∧
      Reaches image [(0, 1)] s back ∧ back.pc = 1 ∧ back.registers = s.registers ∧
      ∃ w, s.stack ≤ w ∧ back.word w ≠ s.word w := by
  obtain ⟨code, r', image, back, hcode, himage, hrun, hP⟩ := @reaches_of_laidOut
    (temporary 4294967290 >>= fun _ => finish) (.interrupt "h") [ins .int [.ofNat 5]] 64 24 [(0, 1)]
    (fun image => (Machine.initial image 0).assign .sp 40 0)
    (fun image back =>
      let s := (Machine.initial image 0).assign .sp 40 0
      decide (image.label? "h" = some 1 ∧ back.pc = 1 ∧ back.registers = s.registers ∧ s.stack ≤ 41 ∧
        back.word 41 ≠ s.word 41)) (by decide +kernel)
  obtain ⟨hlabel, hpc, hregisters, hstack, hword⟩ := of_decide_eq_true hP
  exact ⟨code, r', image, _, back, hcode, himage, rfl, hlabel, hrun, hpc, hregisters, 41, hstack, hword⟩

end Qll.Codegen
