import Qll.Codegen.Address
import Qll.Proofs.Codegen.Copying

/-!
# Addresses at run time

The frame pointer of a routine stands as many words above the stack pointer as were pushed since the
entry. Addresses in the frame are computed from it in a new register; nothing else changes.
-/

namespace Qll.Codegen

open Assembly (Directive Value totalSize)
open Machine (Register Opcode Word Image Handlers State Placed Reaches ins)
open Qll.Computation

/-- One more register is in use than before, and none is forgotten. -/
structure Pool.Takes (p p' : Pool) (q : Register) : Prop where
  mem : q ∈ Pool.allocatable
  new : q ∉ p.live
  live : p'.live = q :: p.live
  ever : ∀ x ∈ p.ever, x ∈ p'.ever
  taken : q ∈ p'.ever
  valid : p.Valid → p'.Valid

namespace Pool.Takes

variable {p p₁ p' : Pool} {q : Register}

/-- Taking a register. -/
theorem of_allocate (h : p.allocate = .ok (q, p')) : p.Takes p' q := by
  obtain ⟨hmem, hnew, hlive, hever⟩ := Pool.allocate_eq_ok h
  exact ⟨hmem, hnew, hlive, fun x hx => (hever x).2 (.inr hx), mem_ever_of_allocate h,
    fun hp => hp.allocate h⟩

/-- What keeps the pool may follow. -/
theorem kept (h : p.Takes p₁ q) (h' : p₁.Kept p') : p.Takes p' q :=
  ⟨h.mem, h.new, h'.live.trans h.live, fun x hx => h'.ever x (h.ever x hx), h'.ever q h.taken,
    fun hp => h'.valid (h.valid hp)⟩

/-- The register that was taken is in use. -/
theorem mem_live (h : p.Takes p' q) : q ∈ p'.live := by
  rw [h.live]
  exact List.mem_cons_self

/-- What was in use still is. -/
theorem live_subset (h : p.Takes p' q) : ∀ x ∈ p.live, x ∈ p'.live := by
  rw [h.live]
  exact fun x hx => List.mem_cons_of_mem q hx

/-- The register that was taken can be written. -/
theorem writable (h : p.Takes p' q) : q.Writable := Pool.writable_of_mem h.mem

end Pool.Takes

/-- Code that puts a word into a new register and changes nothing else. -/
def Loads (image : Image) (handlers : Handlers) (code : List Directive) (p p' : Pool) (q : Register)
    (pre : State → Prop) (word : State → Word) : Prop :=
  Runs image handlers code pre fun s t =>
    t.reg q = word s ∧ (∀ x, Untouched p p' x → t.reg x = s.reg x) ∧ t.memory = s.memory ∧
      t.interrupted = s.interrupted

section Frame

variable (image : Image) (handlers : Handlers) {r r' : Routine} {q : Register} {n : Int}

/-- The address of the word that holds the frame pointer, in a state at the depth of a routine. -/
def frameSlot (r : Routine) (s : State) : Nat := s.stack + r.depth.toNat

/-- The frame pointer is loaded into a new register. -/
theorem framePointer_runs (h : framePointer r = .ok q r') :
    r.pool.Takes r'.pool q ∧ ∃ code, r' = (r.plus code).withPool r'.pool ∧
      Loads image handlers code r.pool r'.pool q
        (fun s => frameSlot r s < s.memory.size ∧ s.memory.size ≤ 4294967296)
        fun s => s.word (frameSlot r s) := by
  unfold framePointer at h
  simp only [allocate_front, get_bind_ok] at h
  obtain ⟨t, p, ht, h⟩ := h
  have htakes := Pool.Takes.of_allocate ht
  by_cases hdepth : r.depth = 0
  · simp only [Routine.withPool_depth, hdepth, ↓reduceIte, emit_front, pure_ok] at h
    obtain ⟨-, rfl, rfl⟩ := h
    refine ⟨htakes, [ins .load [t, .sp]], rfl, ?_⟩
    rintro a s ⟨hload, -⟩ hs hone ⟨hin, -⟩
    have hslot : frameSlot r s = s.stack := by simp [frameSlot, hdepth]
    rw [hslot] at hin
    refine ⟨_, Machine.reaches_load handlers hload hs hin htakes.writable (by decide) hone, rfl, ?_,
      fun x hx => ?_, rfl, rfl⟩
    · rw [State.reg_assign_self _ _ _ _ htakes.writable.lt]
      exact congrArg s.word hslot.symm
    · exact State.reg_assign_of_ne _ _ _ _ _ (hx.ne htakes.new htakes.taken)
  · simp only [Routine.withPool_depth, hdepth, ↓reduceIte, loadCount_front, emit_front, pure_ok] at h
    obtain ⟨hlow, hhigh, -, -, rfl, rfl⟩ := h
    refine ⟨htakes, [.constant t (.immediate (UInt32.ofNat r.depth.toNat)), ins .add [t, .sp, t],
      ins .load [t, t]], by simp, ?_⟩
    rintro a s ⟨hconstant, hadd, hload, -⟩ hs hone ⟨hin, hsize⟩
    have hw := htakes.writable
    have hrun₁ := Machine.reaches_constant handlers hconstant rfl hs hw hone
    have hone₁ := hrun₁.one hone
    have hrun₂ := Machine.reaches_binary handlers hadd rfl rfl hw (by decide) hw.lt hone₁
    have hone₂ := hrun₂.one hone₁
    have hne : Register.sp ≠ t := (Pool.ne_sp_of_mem htakes.mem).symm
    rw [State.reg_assign_self _ _ _ _ hw.lt, State.reg_assign_of_ne _ _ _ _ _ hne] at hrun₂ hone₂
    have haddress : (s.reg .sp + UInt32.ofNat r.depth.toNat).toNat = frameSlot r s := by
      rw [UInt32.toNat_add, UInt32.toNat_ofNat_of_lt' (by rw [UInt32.size]; omega)]
      exact Nat.mod_eq_of_lt (Nat.lt_of_lt_of_le hin hsize)
    have hrun₃ := Machine.reaches_load handlers hload rfl
      (by rw [State.reg_assign_self _ _ _ _ hw.lt, haddress]; exact hin) hw hw.lt hone₂
    rw [State.reg_assign_self _ _ _ _ hw.lt, haddress] at hrun₃
    refine ⟨_, hrun₁.trans (hrun₂.trans hrun₃), rfl, ?_, fun x hx => ?_, rfl, rfl⟩
    · exact State.reg_assign_self _ _ _ _ hw.lt
    · have hxt := hx.ne htakes.new htakes.taken
      rw [State.reg_assign_of_ne _ _ _ _ _ hxt, State.reg_assign_of_ne _ _ _ _ _ hxt,
        State.reg_assign_of_ne _ _ _ _ _ hxt]

/-- Taking another register, changing the first by a count held in it, and giving it back. -/
theorem belowFrame_runs (h : belowFrame n r = .ok q r') :
    r.pool.Takes r'.pool q ∧ 0 ≤ n ∧ n < 4294967296 ∧
      ∃ code, r' = (r.plus code).withPool r'.pool ∧
      Loads image handlers code r.pool r'.pool q
        (fun s => frameSlot r s < s.memory.size ∧ s.memory.size ≤ 4294967296)
        fun s => s.word (frameSlot r s) - UInt32.ofNat n.toNat := by
  unfold belowFrame at h
  rw [bind_ok] at h
  obtain ⟨x, r₁, hframe, h⟩ := h
  obtain ⟨htakes, front, hr₁, hruns⟩ := framePointer_runs image handlers hframe
  simp only [allocate_front, loadCount_front, emit_front, release_front, pure_ok] at h
  obtain ⟨t, p, ht, hlow, hhigh, -, p', ht', rfl, rfl⟩ := h
  simp only [Routine.plus_pool, Routine.withPool_pool] at ht'
  have htakes' := Pool.Takes.of_allocate ht
  have hkept : r₁.pool.Kept p' := .around ht (.refl p) ht'
  have hever : t ∈ p'.ever := by
    rw [Pool.release_ever ht']
    exact htakes'.taken
  refine ⟨htakes.kept hkept, hlow, hhigh, front ++
    [.constant t (.immediate (UInt32.ofNat n.toNat)), ins .sub [x, x, t]], ?_, ?_⟩
  · rw [hr₁]
    simp
  · intro a s hp hs hone hpre
    obtain ⟨hfront, hconstant, hsub, -⟩ := Machine.placed_append.1 hp
    obtain ⟨m, hsm, hmpc, hmx, hmreg, hmmemory, hmint⟩ := hruns a s hfront hs hone hpre
    have hone₁ := hsm.one hone
    have hrun₁ := Machine.reaches_constant handlers hconstant rfl hmpc htakes'.writable hone₁
    have hrun₂ := Machine.reaches_binary handlers hsub rfl rfl htakes.writable htakes.writable.lt
      htakes'.writable.lt (hrun₁.one hone₁)
    have hne : x ≠ t := fun h => htakes'.new (h ▸ htakes.mem_live)
    refine ⟨_, hsm.trans (hrun₁.trans hrun₂), ?_, ?_, fun y hy => ?_, hmmemory, hmint⟩
    · simp only [State.assign_pc, Machine.totalSize_append, Machine.totalSize_cons,
        Machine.size_constant, Machine.size_instruction, Machine.totalSize_nil, Nat.add_assoc]
    · rw [State.reg_assign_self _ _ _ _ htakes.writable.lt,
        State.reg_assign_self _ _ _ _ htakes'.writable.lt, State.reg_assign_of_ne _ _ _ _ _ hne, hmx]
    · have hyt : y ≠ t := (hy.second htakes.live_subset).ne htakes'.new hever
      have hyx : y ≠ x := hy.ne htakes.new (hkept.ever x htakes.taken)
      rw [State.reg_assign_of_ne _ _ _ _ _ hyx, State.reg_assign_of_ne _ _ _ _ _ hyt,
        hmreg y (hy.first hkept.ever)]

/-- The address of a word above the frame pointer is loaded into a new register. -/
theorem aboveFrame_runs (h : aboveFrame n r = .ok q r') :
    r.pool.Takes r'.pool q ∧ 0 ≤ n ∧ n < 4294967296 ∧
      ∃ code, r' = (r.plus code).withPool r'.pool ∧
      Loads image handlers code r.pool r'.pool q
        (fun s => frameSlot r s < s.memory.size ∧ s.memory.size ≤ 4294967296)
        fun s => s.word (frameSlot r s) + UInt32.ofNat n.toNat := by
  simp only [aboveFrame, bind_ok, offset, pure_ok] at h
  obtain ⟨x, r₁, hframe, _, _, hadjust, rfl, rfl⟩ := h
  obtain ⟨htakes, front, hr₁, hruns⟩ := framePointer_runs image handlers hframe
  obtain ⟨hlow, hhigh, hkept, -⟩ := adjust_ok hadjust
  obtain ⟨back, hr₂, hruns'⟩ := adjust_runs image handlers (g := fun a b => a + b)
    (fun _ _ _ => rfl) (fun _ => UInt32.add_zero _) htakes.writable (.inl htakes.mem_live) hadjust
  refine ⟨htakes.kept hkept, hlow, hhigh, front ++ back, ?_, fun a s hp hs hone hpre => ?_⟩
  · rw [hr₂, hr₁]
    simp
  · obtain ⟨hfront, hback⟩ := Machine.placed_append.1 hp
    obtain ⟨m, hsm, hmpc, hmx, hmreg, hmmemory, hmint⟩ := hruns a s hfront hs hone hpre
    obtain ⟨t, hmt, htpc, htx, htreg, htmemory, htint⟩ :=
      hruns' _ m hback hmpc (hsm.one hone) trivial
    refine ⟨t, hsm.trans hmt, ?_, ?_, fun y hy => ?_, by rw [htmemory, hmmemory], by
      rw [htint, hmint]⟩
    · rw [htpc, Machine.totalSize_append, Nat.add_assoc]
    · rw [htx, hmx]
    · have hyx : y ≠ x := hy.ne htakes.new (hkept.ever x htakes.taken)
      rw [htreg y (hy.second htakes.live_subset) hyx, hmreg y (hy.first hkept.ever)]

/-- The address of a temporary of a routine, in a state at the depth of the routine. -/
def slotWord (image : Image) (r : Routine) (slot : Slot) (s : State) : Word :=
  match r.frame with
  | .stack _ => s.word (frameSlot r s) - UInt32.ofNat slot.offset.toNat
  | .block label _ =>
    Image.resolve image.labels (symbol label) + UInt32.ofNat slot.offset.toNat
  | .bare => 0

/-- The address of a temporary is loaded into a new register. -/
theorem slotAddress_runs {slot : Slot} (h : slotAddress slot r = .ok q r') :
    r.pool.Takes r'.pool q ∧ ∃ code, r' = (r.plus code).withPool r'.pool ∧
      Loads image handlers code r.pool r'.pool q
        (fun s => ((∃ f, r.frame = .stack f) → frameSlot r s < s.memory.size) ∧
          s.memory.size ≤ 4294967296)
        (slotWord image r slot) := by
  unfold slotAddress at h
  rw [get_bind_ok] at h
  cases hframe : r.frame with
  | stack f =>
    rw [hframe] at h
    obtain ⟨htakes, -, -, code, hr, hruns⟩ := belowFrame_runs image handlers h
    refine ⟨htakes, code, hr, fun a s hp hs hone hpre => ?_⟩
    obtain ⟨t, hst, htpc, htq, hrest⟩ := hruns a s hp hs hone ⟨hpre.1 ⟨f, rfl⟩, hpre.2⟩
    exact ⟨t, hst, htpc, by rw [htq]; simp only [slotWord, hframe], hrest⟩
  | block label size =>
    rw [hframe] at h
    simp only [allocate_front, loadAddress_front] at h
    obtain ⟨x, p, hx, h⟩ := h
    simp only [offset, bind_ok, pure_ok] at h
    obtain ⟨_, r₁, hadjust, rfl, rfl⟩ := h
    have htakes := Pool.Takes.of_allocate hx
    obtain ⟨-, -, hkept, -⟩ := adjust_ok hadjust
    obtain ⟨back, hr₁, hruns⟩ := adjust_runs image handlers (g := fun a b => a + b)
      (fun _ _ _ => rfl) (fun _ => UInt32.add_zero _) htakes.writable (.inl htakes.mem_live) hadjust
    refine ⟨htakes.kept hkept, .constant x (.reference (symbol label)) :: back, ?_, ?_⟩
    · rw [hr₁]
      simp
    · rintro a s ⟨hconstant, hback⟩ hs hone -
      have hrun₁ := Machine.reaches_constant handlers hconstant rfl hs htakes.writable hone
      obtain ⟨t, hmt, htpc, htx, htreg, htmemory, htint⟩ := hruns _ _ hback rfl (hrun₁.one hone) trivial
      refine ⟨t, hrun₁.trans hmt, ?_, ?_, fun y hy => ?_, htmemory, htint⟩
      · rw [htpc, Machine.totalSize_cons, Nat.add_assoc]
      · rw [htx, State.reg_assign_self _ _ _ _ htakes.writable.lt]
        simp only [slotWord, hframe]
      · have hyx : y ≠ x := hy.ne htakes.new (hkept.ever x htakes.taken)
        rw [htreg y (hy.second htakes.live_subset) hyx, State.reg_assign_of_ne _ _ _ _ _ hyx]
  | bare =>
    rw [hframe] at h
    exact absurd h throw_ok

end Frame

end Qll.Codegen
