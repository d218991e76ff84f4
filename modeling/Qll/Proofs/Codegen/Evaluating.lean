import Qll.Codegen.Lowering
import Qll.Proofs.Codegen.Calling

/-!
# Evaluating expressions at run time

An expression leaves its value, or the address of its object, in a new register. `Operand` says of
the code of an expression what the code around it relies on: whenever it runs within an evaluation
it comes to its end with the stack pointer, the registers in use and the word of the frame pointer
as they were. This is asked at the depth of the evaluation only, where the words of a call can be
counted, so the expression may be a call.
-/

namespace Qll.Codegen

open Assembly (Directive Value totalSize)
open Check (Storage)
open Checked (Expr)
open Machine (Register Opcode Word Image Handlers State Placed Reaches ins)
open Qll.Types (Ty)
open Qll.Computation

/-! ## What generated code leaves of a routine -/

/-- A frame without its size. What is left is where parameters, locals and temporaries are. -/
def Frame.homes : Frame → Frame
  | .stack f => .stack { f with size := 0 }
  | .block label _ => .block label 0
  | .bare => .bare

/-- Frames that differ in size at most are of one kind. -/
theorem Frame.sameKind_of_homes {f g : Frame} (h : g.homes = f.homes) : SameKind f g := by
  cases f <;> cases g <;> simp_all [Frame.homes, SameKind]

/-- A frame that differs in size at most from a stack frame has its parameters and locals. -/
theorem Frame.stack_of_homes {f : Frame} {g : StackFrame} (h : (Frame.stack g).homes = f.homes) :
    ∃ f', f = .stack f' ∧ f'.params = g.params ∧ f'.locals = g.locals := by
  cases f with
  | stack f' =>
    simp only [homes, Frame.stack.injEq, StackFrame.mk.injEq] at h
    exact ⟨f', rfl, h.1.symm, h.2.1.symm⟩
  | block label size => simp [homes] at h
  | bare => simp [homes] at h

/-- A routine with more code, at the same depth and with a frame that differs in size at most. -/
structure Extends (r r' : Routine) (code : List Directive) : Prop where
  code : r'.code.toList = r.code.toList ++ code
  name : r'.name = r.name
  depth : r'.depth = r.depth
  homes : r'.frame.homes = r.frame.homes

namespace Extends

variable {r r₁ r' : Routine} {code more : List Directive}

/-- Code is added after other code. -/
theorem trans (h : Extends r r₁ code) (h' : Extends r₁ r' more) : Extends r r' (code ++ more) :=
  ⟨by rw [h'.code, h.code, List.append_assoc], h'.name.trans h.name, h'.depth.trans h.depth,
    h'.homes.trans h.homes⟩

/-- A step that adds code and changes only registers and labels. -/
theorem of_eq {p : Pool} {n : Nat} (h : r' = ((r.plus code).withPool p).withLabels n) :
    Extends r r' code := by
  subst h
  exact ⟨by simp, rfl, rfl, rfl⟩

/-- A step that adds code and changes only registers. -/
theorem of_pool {p : Pool} (h : r' = (r.plus code).withPool p) : Extends r r' code := by
  subst h
  exact ⟨by simp, rfl, rfl, rfl⟩

/-- A step that only adds code. -/
theorem of_plus (h : r' = r.plus code) : Extends r r' code := by
  subst h
  exact ⟨by simp, rfl, rfl, rfl⟩

/-- Making room for a temporary adds no code. -/
theorem temporary {size : Int} {slot : Slot} (h : temporary size r = .ok slot r') :
    Extends r r' [] ∧ r'.pool = r.pool := by
  unfold Codegen.temporary at h
  rw [get_bind_ok] at h
  cases hframe : r.frame with
  | stack f =>
    simp only [hframe, bind_ok, set_ok, pure_ok] at h
    obtain ⟨-, _, rfl, -, rfl⟩ := h
    exact ⟨⟨by simp, rfl, rfl, by simp [hframe, StackFrame.grow, Frame.homes]⟩, rfl⟩
  | block label taken =>
    simp only [hframe, bind_ok, set_ok, pure_ok] at h
    obtain ⟨-, _, rfl, -, rfl⟩ := h
    exact ⟨⟨by simp, rfl, rfl, by simp [hframe, Frame.homes]⟩, rfl⟩
  | bare =>
    simp only [hframe] at h
    exact absurd h throw_ok

/-- The added code is determined. -/
theorem unique (h : Extends r r' code) (h' : r'.code.toList = r.code.toList ++ more) :
    more = code :=
  List.append_cancel_left (h'.symm.trans h.code)

end Extends

/-- What the code of an expression leaves of a routine: one more register is in use. -/
structure Yields (r r' : Routine) (q : Register) (code : List Directive) : Prop
    extends Extends r r' code where
  live : r'.pool.live.Perm (q :: r.pool.live)
  valid : r'.pool.Valid

namespace Yields

variable {r r₁ r' : Routine} {q : Register} {code more : List Directive}

/-- Code that loads a word into a new register. -/
theorem of_takes (hvalid : r.pool.Valid) (h : r.pool.Takes r'.pool q) (hr : Extends r r' code) :
    Yields r r' q code :=
  { hr with
    live := by rw [h.live]
    valid := h.valid hvalid }

/-- Code that keeps the registers in use may follow. -/
theorem kept (h : Yields r r₁ q code) (hkept : r₁.pool.Kept r'.pool) (hr : Extends r₁ r' more) :
    Yields r r' q (code ++ more) :=
  { h.toExtends.trans hr with
    live := by rw [hkept.live]; exact h.live
    valid := hkept.valid h.valid }

/-- The new register is in use. -/
theorem mem_live (h : Yields r r' q code) : q ∈ r'.pool.live := h.live.symm.subset List.mem_cons_self

/-- What was in use still is. -/
theorem live_subset (h : Yields r r' q code) : ∀ x ∈ r.pool.live, x ∈ r'.pool.live :=
  fun _ hx => h.live.symm.subset (List.mem_cons_of_mem q hx)

/-- The new register was not in use. -/
theorem new (h : Yields r r' q code) : q ∉ r.pool.live :=
  (List.nodup_cons.1 (h.live.nodup_iff.1 h.valid.nodup)).1

/-- The new register can be taken. -/
theorem mem (h : Yields r r' q code) : q ∈ Pool.allocatable := h.valid.allocatable h.mem_live

/-- The new register can be written. -/
theorem writable (h : Yields r r' q code) : q.Writable := Pool.writable_of_mem h.mem

end Yields

/-! ## Running within an evaluation -/

/-- What code that leaves a value behind keeps: the stack pointer, the registers in use, and the word
of the frame pointer. -/
structure Steady (r : Routine) (s t : State) : Prop where
  stack : t.stack = s.stack
  reg : ∀ q ∈ r.pool.live, t.reg q = s.reg q
  frame : t.word (frameSlot r s) = s.word (frameSlot r s)

namespace Steady

variable {r r' : Routine} {s t u : State}

/-- Code that leaves memory alone, and all registers but those it takes. -/
theorem of_untouched {p : Pool} (hp : p.Valid)
    (hreg : ∀ q, Untouched r.pool p q → t.reg q = s.reg q) (hmemory : t.memory = s.memory) :
    Steady r s t where
  stack := by rw [State.stack, hreg .sp (.sp hp), State.stack]
  reg q hq := hreg q (.inl hq)
  frame := by rw [State.word, hmemory, State.word]

/-- Code that leaves a value behind may follow other such code. -/
theorem trans (h : Steady r s t) (hdepth : r'.depth = r.depth)
    (hlive : ∀ q ∈ r.pool.live, q ∈ r'.pool.live) (h' : Steady r' t u) : Steady r s u where
  stack := h'.stack.trans h.stack
  reg q hq := (h'.reg q (hlive q hq)).trans (h.reg q hq)
  frame := by
    have hslot : frameSlot r' t = frameSlot r s := by
      rw [frameSlot, frameSlot, h.stack, hdepth]
    rw [← h.frame, ← hslot]
    exact h'.frame

/-- Code that leaves memory alone may follow. -/
theorem kept (h : Steady r s t) (hsp : u.reg .sp = t.reg .sp)
    (hreg : ∀ q ∈ r.pool.live, u.reg q = t.reg q) (hmemory : u.memory = t.memory) :
    Steady r s u where
  stack := by rw [State.stack, hsp, ← State.stack, h.stack]
  reg q hq := (hreg q hq).trans (h.reg q hq)
  frame := by rw [State.word_eq_of_memory hmemory, h.frame]

end Steady

/-- A routine that is being built behind another one, at the same depth and with a frame that differs
in size at most. -/
structure Along (r₀ r : Routine) : Prop where
  name : r.name = r₀.name
  depth : r.depth = r₀.depth
  homes : r.frame.homes = r₀.frame.homes

namespace Along

variable {r₀ r r' : Routine} {code : List Directive}

/-- Nothing was built. -/
theorem refl (r : Routine) : Along r r := ⟨rfl, rfl, rfl⟩

/-- More code was generated. -/
theorem more (h : Along r₀ r) (hr : Extends r r' code) : Along r₀ r' :=
  ⟨hr.name.trans h.name, hr.depth.trans h.depth, hr.homes.trans h.homes⟩

end Along

/-- A state in which code of `r` runs within an evaluation that started in the state `s₀` of the
routine `r₀`. Since then only words from `low` on and below `high` were changed. -/
structure Amid (image : Image) (handlers : Handlers) (r₀ : Routine) (s₀ : State) (low high : Nat)
    (r : Routine) (s : State) : Prop extends Along r₀ r where
  reaches : Reaches image handlers s₀ s
  stack : s.stack = s₀.stack
  word : ∀ x, x < low ∨ high ≤ x → s.word x = s₀.word x

namespace Amid

variable {image : Image} {handlers : Handlers} {r₀ r r' : Routine} {s₀ s t : State} {low high : Nat}
  {code : List Directive} {slot : Slot}

/-- An evaluation starts. -/
theorem refl (r : Routine) (s : State) : Amid image handlers r s low high r s :=
  ⟨.refl r, .refl s, rfl, fun _ _ => rfl⟩

/-- More code was generated and has run. -/
theorem step (h : Amid image handlers r₀ s₀ low high r s) (hr : Extends r r' code)
    (hrun : Reaches image handlers s t) (hstack : t.stack = s.stack)
    (hword : ∀ x, x < low ∨ high ≤ x → t.word x = s.word x) :
    Amid image handlers r₀ s₀ low high r' t :=
  ⟨h.toAlong.more hr, h.reaches.trans hrun, hstack.trans h.stack,
    fun x hx => (hword x hx).trans (h.word x hx)⟩

/-- The frame pointer is found where it was. -/
theorem frameSlot (h : Amid image handlers r₀ s₀ low high r s) :
    frameSlot r s = Codegen.frameSlot r₀ s₀ := by
  rw [Codegen.frameSlot, Codegen.frameSlot, h.stack, h.depth]

/-- Addresses in the frame can still be computed. -/
theorem framed (h : Amid image handlers r₀ s₀ low high r s) (hs : Framed r₀ s₀) : Framed r s :=
  hs.congr (Frame.sameKind_of_homes h.homes) h.frameSlot h.reaches.size

/-- A temporary keeps its address unless the frame pointer was overwritten. -/
theorem slotWord (h : Amid image handlers r₀ s₀ low high r s)
    (hout : Codegen.frameSlot r₀ s₀ < low ∨ high ≤ Codegen.frameSlot r₀ s₀) :
    slotWord image r slot s = Codegen.slotWord image r₀ slot s₀ :=
  slotWord_congr image (Frame.sameKind_of_homes h.homes) (by rw [h.frameSlot, h.word _ hout])

end Amid

/-- The address of a temporary is loaded within an evaluation. -/
theorem slotAddress_amid (image : Image) (handlers : Handlers) {r₀ r r' : Routine} {s₀ : State}
    {low high : Nat} {slot : Slot} {q : Register} (hs₀ : Framed r₀ s₀)
    (hout : frameSlot r₀ s₀ < low ∨ high ≤ frameSlot r₀ s₀) (h : slotAddress slot r = .ok q r') :
    r.pool.Takes r'.pool q ∧ ∃ code, r' = (r.plus code).withPool r'.pool ∧
      Loads image handlers code r.pool r'.pool q (Amid image handlers r₀ s₀ low high r)
        fun _ => slotWord image r₀ slot s₀ := by
  obtain ⟨htakes, code, hr', hloads⟩ := slotAddress_runs image handlers h
  refine ⟨htakes, code, hr', fun a s hp hs hone hamid => ?_⟩
  obtain ⟨t, hst, hpc, hq, hrest⟩ := hloads a s hp hs hone (hamid.framed hs₀)
  exact ⟨t, hst, hpc, hq.trans (hamid.slotWord hout), hrest⟩

/-- The code of an expression at one place of what is built behind `r₀`, as the code around it relies on
it: it takes one register, and whenever it runs within the evaluation that started in the state `s₀` of
`r₀`, it comes to its end and leaves a word in that register which `post` relates to its first and last
states. -/
def OperandAt (image : Image) (handlers : Handlers) (r₀ : Routine) (s₀ : State) (low high : Nat)
    (r : Routine) (x : Gen Register) (post : State → State → Word → Prop) : Prop :=
  ∀ q r', r.pool.Valid → Along r₀ r → x r = .ok q r' → ∃ code, Yields r r' q code ∧
    Runs image handlers code (Amid image handlers r₀ s₀ low high r)
      fun s t => Steady r s t ∧ post s t (t.reg q)

/-- An expression whose code can be relied on wherever it is. -/
def Operand (image : Image) (handlers : Handlers) (r₀ : Routine) (s₀ : State) (low high : Nat)
    (x : Gen Register) (post : State → State → Word → Prop) : Prop :=
  ∀ r, OperandAt image handlers r₀ s₀ low high r x post

/-- What is known of an operand may be weakened, with the run of its code at hand. -/
theorem OperandAt.imp {image : Image} {handlers : Handlers} {r₀ r : Routine} {s₀ : State}
    {low high : Nat} {x : Gen Register} {post post' : State → State → Word → Prop}
    (h : OperandAt image handlers r₀ s₀ low high r x post)
    (himp : ∀ s t v, Amid image handlers r₀ s₀ low high r s → Reaches image handlers s t →
      post s t v → post' s t v) :
    OperandAt image handlers r₀ s₀ low high r x post' := by
  intro q r' hvalid halong hx
  obtain ⟨code, hyields, hruns⟩ := h q r' hvalid halong hx
  refine ⟨code, hyields, fun a s hp hs hone hamid => ?_⟩
  obtain ⟨t, hst, htpc, hsteady, hpost⟩ := hruns a s hp hs hone hamid
  exact ⟨t, hst, htpc, hsteady, himp s t _ hamid hst hpost⟩

/-! ## Variables -/

section Variables

variable (image : Image) (handlers : Handlers) {shapes : Shapes} {r r' : Routine} {q : Register}
  {st : Storage} {t : Ty} {lvalue : Bool}

/-- The address of named storage, in a state at the depth of a routine. -/
def storageWord (image : Image) (r : Routine) (st : Storage) (s : State) : Word :=
  if st.kind.isStatic then Image.resolve image.labels (symbol st.qualified)
  else
    match r.frame with
    | .stack f =>
      match f.params.lookup st.id, f.locals.lookup st.id with
      | some n, _ => s.word (frameSlot r s) + UInt32.ofNat n.toNat
      | none, some n => s.word (frameSlot r s) - UInt32.ofNat n.toNat
      | none, none => 0
    | _ => 0

/-- The address of a parameter or local variable is loaded into a new register. -/
theorem frameAddress_runs (h : frameAddress st r = .ok q r') (hkind : st.kind.isStatic = false) :
    r.pool.Takes r'.pool q ∧ ∃ code, r' = (r.plus code).withPool r'.pool ∧
      Loads image handlers code r.pool r'.pool q (Framed r) (storageWord image r st) := by
  unfold frameAddress at h
  rw [get_bind_ok] at h
  cases hframe : r.frame with
  | stack f =>
    have hslot {s : State} (hs : Framed r s) :
        frameSlot r s < s.memory.size ∧ s.memory.size ≤ 4294967296 := ⟨hs.1 ⟨f, hframe⟩, hs.2⟩
    simp only [hframe] at h
    cases hparam : f.params.lookup st.id with
    | some n =>
      simp only [hparam] at h
      obtain ⟨htakes, -, -, code, hr', hloads⟩ := aboveFrame_runs image handlers h
      refine ⟨htakes, code, hr', fun a s hp hs hone hpre => ?_⟩
      obtain ⟨t, hst, hpc, hq, hrest⟩ := hloads a s hp hs hone (hslot hpre)
      exact ⟨t, hst, hpc, by simp [hq, storageWord, hkind, hframe, hparam], hrest⟩
    | none =>
      cases hlocal : f.locals.lookup st.id with
      | some n =>
        simp only [hparam, hlocal] at h
        obtain ⟨htakes, -, -, code, hr', hloads⟩ := belowFrame_runs image handlers h
        refine ⟨htakes, code, hr', fun a s hp hs hone hpre => ?_⟩
        obtain ⟨t, hst, hpc, hq, hrest⟩ := hloads a s hp hs hone (hslot hpre)
        exact ⟨t, hst, hpc, by simp [hq, storageWord, hkind, hframe, hparam, hlocal], hrest⟩
      | none =>
        simp only [hparam, hlocal] at h
        exact absurd h throw_ok
  | block label size =>
    rw [hframe] at h
    exact absurd h throw_ok
  | bare =>
    rw [hframe] at h
    exact absurd h throw_ok

/-- The address of named storage is loaded into a new register. -/
theorem address_runs (h : address st r = .ok q r') :
    r.pool.Takes r'.pool q ∧ ∃ code, r' = (r.plus code).withPool r'.pool ∧
      Loads image handlers code r.pool r'.pool q (Framed r) (storageWord image r st) := by
  unfold address at h
  by_cases hstatic : st.kind.isStatic = true
  · simp only [hstatic, ↓reduceIte, allocate_front, loadAddress_front, pure_ok] at h
    obtain ⟨x, p, hx, rfl, rfl⟩ := h
    have htakes := Pool.Takes.of_allocate hx
    refine ⟨htakes, [.constant x (.reference (symbol st.qualified))], by simp, ?_⟩
    rintro a s ⟨hconstant, -⟩ hs hone -
    refine ⟨_, Machine.reaches_constant handlers hconstant rfl hs htakes.writable hone, rfl, ?_,
      fun y hy => ?_, rfl, rfl⟩
    · simp [State.reg_assign_self _ _ _ _ htakes.writable.lt, storageWord, hstatic]
    · exact State.reg_assign_of_ne _ _ _ _ _ (hy.ne htakes.new htakes.taken)
  · rw [if_neg hstatic] at h
    exact frameAddress_runs image handlers h (by simpa using hstatic)

/-- What an expression of some type leaves of the address of its object: the address itself where
one is asked for or the object fits no register, and the word there otherwise. -/
def valueAt (shapes : Shapes) (t : Ty) (lvalue : Bool) (s : State) (a : Word) : Word :=
  match lvalue, shapes.isIntegral t with
  | false, .ok true => s.word a.toNat
  | _, _ => a

/-- What is left of an address depends on memory alone. -/
theorem valueAt_congr {s s' : State} {a : Word} (h : s'.memory = s.memory) :
    valueAt shapes t lvalue s' a = valueAt shapes t lvalue s a := by
  unfold valueAt
  rw [State.word_eq_of_memory h]

/-- An address is turned into the value there if the value is asked for. -/
theorem loadValue_runs {x : Register} (hx : x.Writable)
    (h : loadValue shapes x t lvalue r = .ok q r') :
    q = x ∧ ∃ code, r' = r.plus code ∧ Runs image handlers code
      (fun s => lvalue = false → shapes.isIntegral t = .ok true → (s.reg x).toNat < s.memory.size)
      fun s t' => t'.reg x = valueAt shapes t lvalue s (s.reg x) ∧
        (∀ y, y ≠ x → t'.reg y = s.reg y) ∧ t'.memory = s.memory := by
  unfold loadValue at h
  cases lvalue with
  | true =>
    simp only [↓reduceIte, pure_ok] at h
    obtain ⟨rfl, rfl⟩ := h
    exact ⟨rfl, [], by simp, fun a s _ hs _ _ => ⟨s, .refl s, hs, rfl, fun _ _ => rfl, rfl⟩⟩
  | false =>
    simp only [Bool.false_eq_true, ↓reduceIte, bind_ok, orFault_ok] at h
    obtain ⟨integral, _, ⟨hintegral, rfl⟩, h⟩ := h
    cases integral with
    | false =>
      simp only [Bool.false_eq_true, ↓reduceIte, pure_ok] at h
      obtain ⟨rfl, rfl⟩ := h
      refine ⟨rfl, [], by simp, fun a s _ hs _ _ => ⟨s, .refl s, hs, ?_, fun _ _ => rfl, rfl⟩⟩
      simp [valueAt, hintegral]
    | true =>
      simp only [↓reduceIte, emit_front, pure_ok] at h
      obtain ⟨-, rfl, rfl⟩ := h
      refine ⟨rfl, [ins .load [x, x]], rfl, fun a s hp hs hone hin => ?_⟩
      refine ⟨_, Machine.reaches_load handlers hp.1 hs (hin rfl hintegral) hx hx.lt hone, rfl, ?_,
        fun y hy => State.reg_assign_of_ne _ _ _ _ _ hy, rfl⟩
      simp [State.reg_assign_self _ _ _ _ hx.lt, valueAt, hintegral]

end Variables

/-! ## Operands -/

section Operands

variable {image : Image} {handlers : Handlers} {shapes : Shapes} {r₀ r : Routine} {s₀ s : State}
  {low high : Nat} {st : Storage} {t : Ty} {lvalue : Bool}

/-- A variable keeps its address unless the frame pointer was overwritten. -/
theorem Amid.storageWord (h : Amid image handlers r₀ s₀ low high r s)
    (hout : Codegen.frameSlot r₀ s₀ < low ∨ high ≤ Codegen.frameSlot r₀ s₀) :
    storageWord image r st s = Codegen.storageWord image r₀ st s₀ := by
  have hword : s.word (Codegen.frameSlot r s) = s₀.word (Codegen.frameSlot r₀ s₀) := by
    rw [h.frameSlot, h.word _ hout]
  unfold Codegen.storageWord
  cases hframe : r.frame with
  | stack f =>
    obtain ⟨f₀, hf₀, hparams, hlocals⟩ := Frame.stack_of_homes (hframe ▸ h.homes)
    rw [hf₀]
    simp only [hparams, hlocals, hword]
  | block label size =>
    have := h.homes
    cases hframe₀ : r₀.frame <;> simp_all [Frame.homes]
  | bare =>
    have := h.homes
    cases hframe₀ : r₀.frame <;> simp_all [Frame.homes]

/-- The code of a constant is an operand. -/
theorem operand_integer (w : Word) :
    Operand image handlers r₀ s₀ low high (compileExpr shapes (.integer w) lvalue)
      fun s t v => t.memory = s.memory ∧ v = w := by
  intro r q r' hvalid _ h
  simp only [compileExpr, allocate_front, loadWord_front, pure_ok] at h
  obtain ⟨x, p, hx, rfl, rfl⟩ := h
  have htakes := Pool.Takes.of_allocate hx
  refine ⟨[.constant x (.immediate w)], .of_takes hvalid htakes (.of_pool rfl), ?_⟩
  rintro a s ⟨hconstant, -⟩ hs hone -
  refine ⟨_, Machine.reaches_constant handlers hconstant rfl hs htakes.writable hone, rfl,
    .of_untouched (hvalid.allocate hx) (fun y hy => ?_) rfl, rfl, ?_⟩
  · exact State.reg_assign_of_ne _ _ _ _ _ (hy.ne htakes.new htakes.taken)
  · exact State.reg_assign_self _ _ _ _ htakes.writable.lt

/-- The code of a variable is an operand. -/
theorem operand_variable {text : String} (hkind : st.kind ≠ .function) (hs₀ : Framed r₀ s₀)
    (hout : frameSlot r₀ s₀ < low ∨ high ≤ frameSlot r₀ s₀)
    (hin : lvalue = false → shapes.isIntegral t = .ok true →
      (storageWord image r₀ st s₀).toNat < s₀.memory.size) :
    Operand image handlers r₀ s₀ low high (compileExpr shapes (.name text (some st) t) lvalue)
      fun s t' v => t'.memory = s.memory ∧
        v = valueAt shapes t lvalue s (storageWord image r₀ st s₀) := by
  intro r q r' hvalid _ h
  simp only [compileExpr, hkind, ↓reduceIte] at h
  rw [bind_ok] at h
  obtain ⟨x, r₁, haddress, h⟩ := h
  obtain ⟨htakes, front, hr₁, hloads⟩ := address_runs image handlers haddress
  obtain ⟨rfl, back, hr', hruns⟩ := loadValue_runs image handlers htakes.writable h
  have hkept : r₁.pool.Kept r'.pool := by
    rw [hr', Routine.plus_pool]
    exact .refl _
  have hyields : Yields r r' q (front ++ back) :=
    (Yields.of_takes hvalid htakes (.of_pool hr₁)).kept hkept (.of_plus hr')
  refine ⟨front ++ back, hyields, fun a s hp hs hone hamid => ?_⟩
  obtain ⟨hpfront, hpback⟩ := Machine.placed_append.1 hp
  obtain ⟨m, hsm, hmpc, hmq, hmreg, hmmemory, -⟩ :=
    hloads a s hpfront hs hone (hamid.framed hs₀)
  rw [hamid.storageWord hout] at hmq
  obtain ⟨t', hmt, htpc, htq, htreg, htmemory⟩ := hruns _ m hpback hmpc (hsm.one hone) (by
    simpa only [hmq, hmmemory, hamid.reaches.size] using hin)
  refine ⟨t', hsm.trans hmt, ?_, .of_untouched (htakes.valid hvalid) (fun y hy => ?_) ?_, ?_, ?_⟩
  · rw [htpc, Machine.totalSize_append, Nat.add_assoc]
  · rw [htreg y (hy.ne htakes.new htakes.taken), hmreg y hy]
  · rw [htmemory, hmmemory]
  · rw [htmemory, hmmemory]
  · rw [htq, hmq]
    exact valueAt_congr hmmemory

end Operands

/-! ## A frame in a small memory -/

/-- The state at the start of an image, with the frame pointer 56, which is at 46. -/
def frameStart (image : Image) : State :=
  { registers := ((Vector.replicate 64 0).set! 62 1).set! 63 46
    memory := image.memory.setIfInBounds 46 56
    pc := 0
    interrupted := [] }

section FrameStart

variable {image : Image} (hmemory : image.memory.size = 64)

include hmemory

/-- The memory of the image is used. -/
theorem frameStart_size : (frameStart image).memory.size = 64 := by simp [frameStart, hmemory]

/-- The frame pointer is in place. -/
theorem frameStart_word : (frameStart image).word 46 = 56 := by simp [frameStart, State.word, hmemory]

/-- Addresses in the frame can be computed. -/
theorem frameStart_framed {r : Routine} (hdepth : r.depth = 0) : Framed r (frameStart image) := by
  have hslot : frameSlot r (frameStart image) = 46 := by
    rw [frameSlot, hdepth]
    rfl
  rw [Framed, hslot, frameStart_size hmemory]
  exact ⟨fun _ => by decide, by decide⟩

end FrameStart

/-- Whether a step succeeds with a slot at an offset. -/
def givesOffset (x : Gen Slot) (r : Routine) (n : Int) : Bool :=
  match x r with
  | .ok slot _ => slot.offset == n
  | .error _ _ => false

/-- The offset of the slot. -/
theorem offset_of_givesOffset {x : Gen Slot} {r r' : Routine} {slot : Slot} {n : Int}
    (hgives : givesOffset x r n = true) (h : x r = .ok slot r') : slot.offset = n := by
  unfold givesOffset at hgives
  rw [h] at hgives
  exact beq_iff_eq.1 hgives

/-- Whether generated code assembles and, some steps from the start of its image, comes to a state
with a property. -/
def holdsAfter (x : Gen Register) (r : Routine) (steps : Nat) (ok : Image → Register → State → Bool) :
    Bool :=
  match x r with
  | .ok q r' =>
    match Image.assemble r'.code.toList 64 with
    | .ok image => (Machine.advance image [] steps (frameStart image)).any (ok image q)
    | .error _ => false
  | .error _ _ => false

/-- The run to the state with the property. -/
theorem exists_of_holdsAfter {x : Gen Register} {r : Routine} {steps : Nat}
    {ok : Image → Register → State → Bool} (h : holdsAfter x r steps ok = true) :
    ∃ q r' image t, x r = .ok q r' ∧ Image.assemble r'.code.toList 64 = .ok image ∧
      Reaches image [] (frameStart image) t ∧ ok image q t = true := by
  unfold holdsAfter at h
  split at h
  · next q r' hx =>
    split at h
    · next image himage =>
      obtain ⟨t, hrun, hok⟩ := (Option.any_eq_true _ _).1 h
      exact ⟨q, r', image, t, hx, himage, Machine.reaches_of_advance hrun, hok⟩
    · cases h
  · cases h

end Qll.Codegen
