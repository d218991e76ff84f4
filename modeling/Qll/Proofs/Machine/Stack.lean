import Qll.Proofs.Machine.Placement

/-!
# Pushing and popping

The stack grows downward. `Pushed s t words` says that `t` differs from `s` by `words` pushed one
after the other, and `Popped s t registers` that `registers` were filled from the top of the stack.
Both relations compose, so that the code that saves or restores a list of registers is described by
an induction over the list.
-/

namespace Qll.Machine

open Assembly (Directive totalSize)

/-- The code that pushes a register. -/
def pushCode (r : Register) : List Directive := [ins .sub [.sp, .sp, .one], ins .store [.sp, r]]

/-- The code that pops a register. -/
def popCode (r : Register) : List Directive := [ins .load [r, .sp], ins .add [.sp, .sp, .one]]

/-- Pushing takes two instructions. -/
@[simp] theorem totalSize_pushCode (r : Register) : totalSize (pushCode r) = 2 := rfl

/-- Popping takes two instructions. -/
@[simp] theorem totalSize_popCode (r : Register) : totalSize (popCode r) = 2 := rfl

/-- The code that pushes registers one after the other is twice as long as their list. -/
@[simp] theorem totalSize_pushes (rs : List Register) :
    totalSize (rs.flatMap pushCode) = 2 * rs.length := by
  induction rs with
  | nil => rfl
  | cons r rs ih =>
    simp only [List.flatMap_cons, totalSize_append, totalSize_pushCode, ih, List.length_cons]
    omega

/-- The code that pops registers one after the other is twice as long as their list. -/
@[simp] theorem totalSize_pops (rs : List Register) :
    totalSize (rs.flatMap popCode) = 2 * rs.length := by
  induction rs with
  | nil => rfl
  | cons r rs ih =>
    simp only [List.flatMap_cons, totalSize_append, totalSize_popCode, ih, List.length_cons]
    omega

/-- `words` were pushed, the first of them first. -/
structure Pushed (s t : State) (words : List Word) : Prop where
  stack : t.stack + words.length = s.stack
  reg : ∀ q, q ≠ .sp → t.reg q = s.reg q
  pushed : ∀ i w, words[i]? = some w → t.word (s.stack - 1 - i) = w
  above : ∀ x, s.stack ≤ x → t.word x = s.word x
  below : ∀ x, x < t.stack → t.word x = s.word x
  size : t.memory.size = s.memory.size
  interrupted : t.interrupted = s.interrupted

/-- `registers` were filled from the top of the stack, the first of them first. -/
structure Popped (s t : State) (registers : List Register) : Prop where
  stack : t.stack = s.stack + registers.length
  popped : ∀ i r, registers[i]? = some r → t.reg r = s.word (s.stack + i)
  reg : ∀ q, q ≠ .sp → q ∉ registers → t.reg q = s.reg q
  memory : t.memory = s.memory
  interrupted : t.interrupted = s.interrupted

section Composition

variable {s t u : State}

/-- Nothing is pushed. -/
theorem Pushed.nil (s : State) : Pushed s s [] :=
  ⟨by simp, by simp, by simp, by simp, by simp, rfl, rfl⟩

/-- Nothing is popped. -/
theorem Popped.nil (s : State) : Popped s s [] := ⟨by simp, by simp, by simp, rfl, rfl⟩

/-- Words pushed after other words. -/
theorem Pushed.append {front back : List Word} (h : Pushed s t front) (h' : Pushed t u back) :
    Pushed s u (front ++ back) where
  stack := by
    have h1 := h.stack
    have h2 := h'.stack
    simp only [List.length_append]
    omega
  reg q hq := (h'.reg q hq).trans (h.reg q hq)
  pushed i w hw := by
    have h1 := h.stack
    by_cases hi : i < front.length
    · rw [List.getElem?_append_left hi] at hw
      rw [h'.above _ (by omega), h.pushed i w hw]
    · rw [List.getElem?_append_right (by omega)] at hw
      have hlt : i - front.length < back.length := (List.getElem?_eq_some_iff.1 hw).1
      have := h'.pushed (i - front.length) w hw
      rwa [show t.stack - 1 - (i - front.length) = s.stack - 1 - i by omega] at this
  above x hx := by
    have h1 := h.stack
    rw [h'.above x (by omega), h.above x hx]
  below x hx := by
    have h2 := h'.stack
    rw [h'.below x hx, h.below x (by omega)]
  size := h'.size.trans h.size
  interrupted := h'.interrupted.trans h.interrupted

/-- Registers popped after other registers. -/
theorem Popped.append {front back : List Register} (h : Popped s t front) (h' : Popped t u back)
    (hsp : .sp ∉ front) (hd : ∀ r ∈ front, r ∉ back) : Popped s u (front ++ back) where
  stack := by
    have h1 := h.stack
    have h2 := h'.stack
    simp only [List.length_append]
    omega
  popped i r hr := by
    have h1 := h.stack
    by_cases hi : i < front.length
    · rw [List.getElem?_append_left hi] at hr
      have hmem : r ∈ front := List.mem_of_getElem? hr
      have hne : r ≠ .sp := fun e => hsp (e ▸ hmem)
      rw [h'.reg r hne (hd r hmem), h.popped i r hr]
    · rw [List.getElem?_append_right (by omega)] at hr
      rw [h'.popped _ r hr, h.stack]
      have hword (x : Nat) : t.word x = s.word x := by simp [State.word, h.memory]
      rw [hword]
      congr 1
      omega
  reg q hq hmem := by
    simp only [List.mem_append, not_or] at hmem
    rw [h'.reg q hq hmem.2, h.reg q hq hmem.1]
  memory := h'.memory.trans h.memory
  interrupted := h'.interrupted.trans h.interrupted

end Composition

section Running

variable {image : Image} (handlers : Handlers) {a : Nat} {s : State}

/-- The stack pointer below a word. -/
theorem toNat_sub_one {w : Word} (h : 1 ≤ w.toNat) : (w - 1).toNat = w.toNat - 1 :=
  UInt32.toNat_sub_of_le w 1 (by simpa [UInt32.le_iff_toNat_le] using h)

/-- The stack pointer above a word. -/
theorem toNat_add_one {w : Word} (h : w.toNat + 1 < 4294967296) : (w + 1).toNat = w.toNat + 1 := by
  rw [UInt32.toNat_add]
  simpa using Nat.mod_eq_of_lt h

/-- Pushing a register. -/
theorem reaches_push {r : Register} (hp : Placed image a (pushCode r))
    (hs : s.pc = UInt32.ofNat a) (hr : r.toNat < 64) (hsp : r ≠ .sp) (hlow : 1 ≤ s.stack)
    (hhigh : s.stack ≤ s.memory.size) (hone : s.reg .one = 1) :
    ∃ t, Reaches image handlers s t ∧ t.pc = UInt32.ofNat (a + 2) ∧ Pushed s t [s.reg r] := by
  obtain ⟨hsub, hstore, -⟩ := hp
  let s₁ := s.assign .sp (s.reg .sp - 1) (UInt32.ofNat (a + 1))
  have hone₁ : s₁.reg .one = 1 := one_assign Register.writable_sp hone
  have hnat : (s₁.reg .sp).toNat = s.stack - 1 := by
    rw [State.reg_assign_self _ _ _ _ (by decide), toNat_sub_one hlow, State.stack]
  have hin : (s₁.reg .sp).toNat < s₁.memory.size := by
    rw [hnat, State.assign_memory]
    omega
  have hrun₁ : Reaches image handlers s s₁ :=
    reaches_binary handlers hsub hs (by simp [binary, hone]) Register.writable_sp (by decide) (by decide) hone
  have hrun₂ : Reaches image handlers s₁ (s₁.put (s.stack - 1) (s.reg r) (UInt32.ofNat (a + 2))) := by
    have h : Reaches image handlers s₁ _ := reaches_store handlers hstore rfl hin (by decide) hr hone₁
    rwa [hnat, State.reg_assign_of_ne _ _ _ _ _ hsp] at h
  have hstack : s₁.stack = s.stack - 1 := hnat
  rw [hnat] at hin
  refine ⟨_, hrun₁.trans hrun₂, rfl, ?_, ?_, ?_, ?_, ?_, ?_, ?_⟩
  · simp only [State.put_stack, hstack, List.length_singleton]
    omega
  · intro q hq
    rw [State.put_reg, State.reg_assign_of_ne _ _ _ _ _ hq]
  · intro i w hw
    obtain ⟨rfl, rfl⟩ : i = 0 ∧ w = s.reg r := by
      cases i with
      | zero => simpa using hw.symm
      | succ i => simp at hw
    rw [Nat.sub_zero, State.word_put_self _ _ _ _ hin]
  · intro x hx
    rw [State.word_put_of_ne _ _ _ _ _ (by omega), State.assign_word]
  · intro x hx
    rw [State.put_stack, hstack] at hx
    rw [State.word_put_of_ne _ _ _ _ _ (by omega), State.assign_word]
  · simp [s₁]
  · rfl

/-- Popping a register. -/
theorem reaches_pop {r : Register} (hp : Placed image a (popCode r))
    (hs : s.pc = UInt32.ofNat a) (hr : r.Writable) (hsp : r ≠ .sp)
    (hin : s.stack < s.memory.size) (hhigh : s.stack + 1 < 4294967296) (hone : s.reg .one = 1) :
    ∃ t, Reaches image handlers s t ∧ t.pc = UInt32.ofNat (a + 2) ∧ Popped s t [r] := by
  obtain ⟨hload, hadd, -⟩ := hp
  let s₁ := s.assign r (s.word s.stack) (UInt32.ofNat (a + 1))
  have hone₁ : s₁.reg .one = 1 := one_assign hr hone
  have hstack : s₁.reg .sp = s.reg .sp := State.reg_assign_of_ne _ _ _ _ _ (Ne.symm hsp)
  have hrun₁ : Reaches image handlers s s₁ := reaches_load handlers hload hs hin hr (by decide) hone
  have hrun₂ : Reaches image handlers s₁ (s₁.assign .sp (s.reg .sp + 1) (UInt32.ofNat (a + 2))) :=
    reaches_binary handlers hadd (State.assign_pc ..) (by simp [binary, hstack, hone₁])
      Register.writable_sp (by decide) (by decide) hone₁
  refine ⟨_, hrun₁.trans hrun₂, rfl, ?_, ?_, ?_, ?_, ?_⟩
  · simp only [State.stack_assign_sp, List.length_singleton]
    rw [toNat_add_one hhigh, State.stack]
  · intro i q hq
    obtain ⟨rfl, rfl⟩ : i = 0 ∧ q = r := by
      cases i with
      | zero => simpa using hq.symm
      | succ i => simp at hq
    rw [State.reg_assign_of_ne _ _ _ _ _ hsp, State.reg_assign_self _ _ _ _ hr.lt, Nat.add_zero]
  · intro q hq hmem
    simp only [List.mem_singleton] at hmem
    rw [State.reg_assign_of_ne _ _ _ _ _ hq, State.reg_assign_of_ne _ _ _ _ _ hmem]
  · rfl
  · rfl

/-- Pushing registers one after the other. -/
theorem reaches_pushes {rs : List Register} (hp : Placed image a (rs.flatMap pushCode))
    (hs : s.pc = UInt32.ofNat a) (hr : ∀ r ∈ rs, r.toNat < 64 ∧ r ≠ .sp)
    (hlow : rs.length ≤ s.stack) (hhigh : s.stack ≤ s.memory.size) (hone : s.reg .one = 1) :
    ∃ t, Reaches image handlers s t ∧ t.pc = UInt32.ofNat (a + 2 * rs.length) ∧
      Pushed s t (rs.map s.reg) := by
  induction rs generalizing a s with
  | nil => exact ⟨s, .refl s, hs, Pushed.nil s⟩
  | cons r rs ih =>
    rw [List.flatMap_cons, placed_append] at hp
    simp only [List.length_cons] at hlow
    obtain ⟨hlt, hne⟩ := hr r List.mem_cons_self
    obtain ⟨t, hst, htpc, ht⟩ := reaches_push handlers hp.1 hs hlt hne (by omega) hhigh hone
    have hstack := ht.stack
    simp only [List.length_singleton] at hstack
    obtain ⟨u, htu, hupc, hu⟩ := ih hp.2 htpc (fun q hq => hr q (List.mem_cons_of_mem _ hq))
      (by omega) (by rw [ht.size]; omega) (hst.one hone)
    refine ⟨u, hst.trans htu, ?_, ?_⟩
    · rw [hupc, totalSize_pushCode, List.length_cons]
      congr 1
      omega
    · have hmap : rs.map t.reg = rs.map s.reg :=
        List.map_congr_left fun q hq => ht.reg q (hr q (List.mem_cons_of_mem _ hq)).2
      rw [hmap] at hu
      exact ht.append hu

/-- Popping registers one after the other. -/
theorem reaches_pops {rs : List Register} (hp : Placed image a (rs.flatMap popCode))
    (hs : s.pc = UInt32.ofNat a) (hr : ∀ r ∈ rs, r.Writable ∧ r ≠ .sp) (hnd : rs.Nodup)
    (hin : s.stack + rs.length ≤ s.memory.size) (hhigh : s.stack + rs.length < 4294967296)
    (hone : s.reg .one = 1) :
    ∃ t, Reaches image handlers s t ∧ t.pc = UInt32.ofNat (a + 2 * rs.length) ∧
      Popped s t rs := by
  induction rs generalizing a s with
  | nil => exact ⟨s, .refl s, hs, Popped.nil s⟩
  | cons r rs ih =>
    rw [List.flatMap_cons, placed_append] at hp
    simp only [List.length_cons] at hin hhigh
    obtain ⟨hw, hne⟩ := hr r List.mem_cons_self
    obtain ⟨hnot, hnd⟩ := List.nodup_cons.1 hnd
    obtain ⟨t, hst, htpc, ht⟩ := reaches_pop handlers hp.1 hs hw hne (by omega) (by omega) hone
    have hstack := ht.stack
    simp only [List.length_singleton] at hstack
    obtain ⟨u, htu, hupc, hu⟩ := ih hp.2 htpc (fun q hq => hr q (List.mem_cons_of_mem _ hq)) hnd
      (by rw [ht.memory]; omega) (by omega) (hst.one hone)
    refine ⟨u, hst.trans htu, ?_, ?_⟩
    · rw [hupc, totalSize_popCode, List.length_cons]
      congr 1
      omega
    · exact ht.append hu (by simpa using Ne.symm hne) (by simpa using hnot)

end Running

end Qll.Machine
