import Qll.Proofs.Codegen.Copying

/-!
# The lowering of copies

A copy is written out word by word or runs in a loop, depending on its size; a count that is known
at run time only is tested for zero first. Given enough free registers each of these shapes is
generated, and all of them change memory in the same way and leave the other registers alone.
-/

namespace Qll.Codegen

open Assembly (Directive totalSize)
open Machine (Register Opcode Word Image Handlers State Placed Reaches ins)
open Qll.Computation

/-! ## Enough free registers -/

/-- If a register is free, one can be taken. -/
theorem Pool.exists_allocate {p : Pool} (h : 0 < p.free.length) :
    ∃ q p', p.allocate = .ok (q, p') ∧ p.free.length = p'.free.length + 1 := by
  obtain ⟨q, rest, hfree⟩ := List.exists_cons_of_length_pos h
  obtain ⟨p', hp', rfl⟩ := allocate_of_free hfree
  exact ⟨q, p', hp', by rw [hfree, List.length_cons]⟩

/-- What was taken can be given back after code that keeps the pool. -/
theorem Pool.Kept.exists_release {p p₁ p₂ : Pool} {q : Register} (h : p₁.Kept p₂)
    (ht : p.allocate = .ok (q, p₁)) : ∃ p', p₂.release q = .ok p' ∧ p.Kept p' := by
  have hmem : q ∈ p₂.live := by
    rw [h.live, (allocate_eq_ok ht).2.2.1]
    exact List.mem_cons_self
  exact ⟨_, release_of_mem hmem, .around ht h (release_of_mem hmem)⟩

section Succeeding

variable {r : Routine} (dst src : Register)

/-- Three free registers are enough to copy words one by one. -/
theorem copyUnrolled_succeeds {n : Nat} (h : 3 ≤ r.pool.free.length) :
    ∃ r', copyUnrolled dst src n r = .ok () r' := by
  obtain ⟨pd, p₁, hpd, h₁⟩ := Pool.exists_allocate (p := r.pool) (by omega)
  obtain ⟨ps, p₂, hps, h₂⟩ := Pool.exists_allocate (p := p₁) (by omega)
  obtain ⟨v, p₃, hv, h₃⟩ := Pool.exists_allocate (p := p₂) (by omega)
  obtain ⟨p₄, hv', hkept₂⟩ := (Pool.Kept.refl p₃).exists_release hv
  obtain ⟨p₅, hps', hkept₁⟩ := hkept₂.exists_release hps
  obtain ⟨p₆, hpd', -⟩ := hkept₁.exists_release hpd
  simp only [copyUnrolled, allocate_front, emit_front, copyWords_front, release_front, release_ok]
  exact ⟨_, pd, p₁, hpd, ps, p₂, hps, v, p₃, hv, rfl, rfl, p₄, hv', p₅, hps', p₆, hpd', rfl⟩

/-- Four free registers are enough to copy words in a loop. -/
theorem copyLoop_succeeds {n : Register} (h : 4 ≤ r.pool.free.length) :
    ∃ r', copyLoop dst src n r = .ok () r' ∧ r.pool.Kept r'.pool := by
  obtain ⟨pd, p₁, hpd, h₁⟩ := Pool.exists_allocate (p := r.pool) (by omega)
  obtain ⟨ps, p₂, hps, h₂⟩ := Pool.exists_allocate (p := p₁) (by omega)
  obtain ⟨v, p₃, hv, h₃⟩ := Pool.exists_allocate (p := p₂) (by omega)
  obtain ⟨target, p₄, ht, h₄⟩ := Pool.exists_allocate (p := p₃) (by omega)
  obtain ⟨p₅, ht', hkept₃⟩ := (Pool.Kept.refl p₄).exists_release ht
  obtain ⟨p₆, hv', hkept₂⟩ := hkept₃.exists_release hv
  obtain ⟨p₇, hps', hkept₁⟩ := hkept₂.exists_release hps
  obtain ⟨p₈, hpd', hkept⟩ := hkept₁.exists_release hpd
  simp only [copyLoop, allocate_front, newLabel_front, emit_front, loadAddress_front,
    placeLabel_front, release_front, release_ok]
  exact ⟨_, ⟨pd, p₁, hpd, ps, p₂, hps, v, p₃, hv, target, p₄, ht, rfl, rfl, rfl, rfl, rfl, rfl, rfl,
    rfl, p₅, ht', p₆, hv', p₇, hps', p₈, hpd', rfl⟩, hkept⟩

/-- A copy of a size that fits a word is generated if enough registers are free. -/
theorem copy_succeeds {size : Int} (hsize : size < 4294967296)
    (h : copyNeed size ≤ r.pool.free.length) : ∃ r', copy dst src size r = .ok () r' := by
  unfold copy
  unfold copyNeed at h
  by_cases hzero : size ≤ 0
  · exact ⟨r, by simp [hzero]⟩
  by_cases hone : size = 1
  · simp only [hone, ↓reduceIte, show ¬ (1 : Int) ≤ 0 by decide] at h ⊢
    obtain ⟨v, p, hv, -⟩ := Pool.exists_allocate (p := r.pool) (by omega)
    obtain ⟨p', hv', -⟩ := (Pool.Kept.refl p).exists_release hv
    simp only [allocate_front, emit_front, release_ok]
    exact ⟨_, v, p, hv, rfl, rfl, p', hv', rfl⟩
  by_cases hfew : size ≤ unrollLimit
  · simp only [hzero, hone, hfew, ↓reduceIte] at h ⊢
    exact copyUnrolled_succeeds dst src h
  · simp only [hzero, hone, hfew, ↓reduceIte] at h ⊢
    obtain ⟨n, p, hn, hfree⟩ := Pool.exists_allocate (p := r.pool) (by omega)
    obtain ⟨r₁, hloop, hkept⟩ := copyLoop_succeeds dst src (n := n)
      (r := (r.withPool p).plus [.constant n (.immediate (UInt32.ofNat size.toNat))])
      (by rw [Routine.plus_pool, Routine.withPool_pool]; omega)
    obtain ⟨p', hn', -⟩ := hkept.exists_release hn
    simp only [allocate_front, loadCount_front]
    simp only [bind_ok, release_ok]
    exact ⟨_, n, p, hn, by omega, hsize, (), r₁, hloop, p', hn', rfl⟩

/-- One free register is enough for a jump. -/
theorem jumpIfZero_succeeds (n : Register) (label : String) (h : 1 ≤ r.pool.free.length) :
    ∃ r', jumpIfZero n label r = .ok () r' ∧ r.pool.Kept r'.pool := by
  obtain ⟨t, p, ht, -⟩ := Pool.exists_allocate (p := r.pool) (by omega)
  obtain ⟨p', ht', hkept⟩ := (Pool.Kept.refl p).exists_release ht
  simp only [jumpIfZero, jumpBy, allocate_front, loadAddress_front, emit_front, release_ok]
  exact ⟨_, ⟨t, p, ht, rfl, p', ht', rfl⟩, hkept⟩

/-- A copy of a run-time count is generated if four registers are free. -/
theorem copyCounted_succeeds {n : Register} (h : 4 ≤ r.pool.free.length) :
    ∃ r', copyCounted dst src n r = .ok () r' := by
  simp only [copyCounted, newLabel_front]
  generalize _ ++ "$" ++ "copied" ++ _ = label
  obtain ⟨r₁, hjump, hkept⟩ := jumpIfZero_succeeds n label
    (r := r.withLabels (r.labels + 1)) (by rw [Routine.withLabels_pool]; omega)
  obtain ⟨r₂, hloop, -⟩ := copyLoop_succeeds dst src (n := n) (r := r₁)
    (by rw [hkept.free]; exact h)
  simp only [bind_ok, placeLabel_ok]
  exact ⟨_, (), r₁, hjump, (), r₂, hloop, rfl⟩

end Succeeding

/-! ## Copies of a run-time count -/

section Counting

variable {r r' : Routine} {u : Unit} {dst src n : Register}

/-- A copy of a run-time count: nothing at all happens to memory if the count is zero. -/
theorem copyCounted_runs (hname : symbol r.name = r.name) (hdst : r.pool.Withholds dst)
    (hsrc : r.pool.Withholds src) (hn : r.pool.Withholds n) (hnone : n ≠ .one)
    (h : copyCounted dst src n r = .ok u r') :
    r.pool.Borrows r'.pool 4 ∧ ∃ code,
      r' = ((r.plus code).withPool r'.pool).withLabels r'.labels ∧
      ∀ image handlers, Runs image handlers code
        (fun s => Within (s.reg dst).toNat (s.reg n).toNat s.memory.size ∧
          Within (s.reg src).toNat (s.reg n).toNat s.memory.size)
        fun s t => Ascends (s.reg dst).toNat (s.reg src).toNat (s.reg n).toNat s t ∧ t.reg n = 0 ∧
          ∀ q, q ∉ r.pool.free.take 4 → q ≠ n → t.reg q = s.reg q := by
  simp only [copyCounted, newLabel_front] at h
  simp only [bind_ok, placeLabel_ok] at h
  obtain ⟨_, r₁, hjump, _, r₂, hloop, rfl⟩ := h
  generalize hlabel : _ ++ "$" ++ "copied" ++ _ = label at hjump ⊢
  have hlabel' : symbol label = label := by
    rw [← hlabel]
    exact symbol_newLabel hname (by decide) _
  obtain ⟨hborrows₁, front, hfront, hr₁, hruns₁⟩ :=
    jumpIfZero_runs (r := r.withLabels (r.labels + 1)) hn hjump
  have hfree : r₁.pool.free = r.pool.free := hborrows₁.kept.free
  have hwithholds {q : Register} (hq : r.pool.Withholds q) : r₁.pool.Withholds q :=
    ⟨hq.lt, hfree ▸ hq.notFree⟩
  obtain ⟨hborrows₂, body, hr₂, hruns₂⟩ := copyLoop_runs
    (by rw [hr₁]; exact hname) (hwithholds hdst) (hwithholds hsrc) (hwithholds hn) hnone hloop
  rw [hfree] at hruns₂
  refine ⟨hborrows₁.trans hborrows₂ (by decide), front ++ (body ++ [.label label]), ?_, ?_⟩
  · rw [hr₂, hr₁]
    simp
  intro image handlers a s hp hs hone hpre
  obtain ⟨hin, hin'⟩ := hpre
  obtain ⟨hpfront, hpbody, hplabel, -⟩ := (Machine.placed_append.trans
    (and_congr_right fun _ => Machine.placed_append)).1 hp
  rw [hfront] at hpbody hplabel
  obtain ⟨m, hsm, hmpc, hmreg, hmmemory, hmint⟩ := hruns₁ image handlers a s hpfront hs hone
  have hkept {q : Register} (hq : r.pool.Withholds q) : m.reg q = s.reg q :=
    hmreg q fun hmem => hq.notFree (List.mem_of_mem_take hmem)
  have hend : a + totalSize (front ++ (body ++ [.label label])) = a + 3 + totalSize body := by
    simp only [Machine.totalSize_append, Machine.totalSize_cons, Machine.size_label,
      Machine.totalSize_nil, hfront]
    omega
  rw [hend]
  by_cases hzero : s.reg n = 0
  · -- The jump leads to the label at the end.
    have htarget : Image.resolve image.labels (symbol label) =
        UInt32.ofNat (a + 3 + totalSize body) := by
      rw [hlabel']
      have := Machine.constantWord_reference hplabel
      exact Option.some.inj this
    rw [if_pos hzero, htarget] at hmpc
    refine ⟨m, hsm, hmpc, ?_, (hkept hn).trans hzero, fun q hq _ => hmreg q fun hmem => hq ?_⟩
    · rw [hzero]
      exact (Ascends.refl s).congr_end hmmemory hmint
    · exact List.take_subset_take_left _ (by decide) hmem
  · rw [if_neg hzero] at hmpc
    obtain ⟨t, hmt, htpc, ht, htn, htreg⟩ := hruns₂ image handlers _ m hpbody hmpc (hsm.one hone) (by
      simp only [hkept hdst, hkept hsrc, hkept hn, hmmemory]
      exact ⟨hzero, hin, hin'⟩)
    rw [hkept hdst, hkept hsrc, hkept hn] at ht
    refine ⟨t, hsm.trans hmt, htpc, ht.congr hmmemory hmint, htn, fun q hq hqn => ?_⟩
    rw [htreg q hq hqn, hmreg q fun hmem => hq (List.take_subset_take_left _ (by decide) hmem)]

end Counting

/-! ## What every copy does -/

/-- A register that can be an operand: one in use, or one that is never handed out. -/
def Pool.Operand (p : Pool) (q : Register) : Prop :=
  q ∈ p.live ∨ q = .result ∨ q = .one ∨ q = .sp

/-- Operands are not handed out. -/
theorem Pool.Valid.withholds_operand {p : Pool} {q : Register} (hp : p.Valid) (h : p.Operand q) :
    p.Withholds q :=
  h.elim hp.withholds withholds_of_reserved

/-- The effect of a copy of `n` words on the machine: the words are copied in ascending order, so
that it is the plain copy if the blocks are disjoint; no other word changes, and of the registers
that satisfy `kept` none does. -/
structure CopyEffect (dst src n : Nat) (kept : Register → Prop) (s t : State) : Prop where
  ascends : Ascends dst src n s t
  plain : dst + n ≤ src ∨ src + n ≤ dst → ∀ i < n, t.word (dst + i) = s.word (src + i)
  other : ∀ x, x < dst ∨ dst + n ≤ x → t.word x = s.word x
  reg : ∀ q, kept q → t.reg q = s.reg q

/-- What was copied in ascending order has the effect of a copy. -/
theorem Ascends.effect {dst src n : Nat} {kept : Register → Prop} {s t : State}
    (h : Ascends dst src n s t) (hreg : ∀ q, kept q → t.reg q = s.reg q) :
    CopyEffect dst src n kept s t where
  ascends := h
  plain happart := (h.copied happart).word
  other x hx := by rw [h.word, ascending_other _ hx]
  reg := hreg

/-- Copies of any size, and of a run-time count, are generated whenever enough registers are free.
The code appended for them, wherever it is in place, runs to its end and copies the words in ascending
order; except for the registers the copy takes itself, and the run-time count, which ends as zero,
it leaves every register as it was. -/
theorem copy_lowering {r : Routine} {dst src : Register} (hvalid : r.pool.Valid)
    (hname : symbol r.name = r.name) (hdst : r.pool.Operand dst) (hsrc : r.pool.Operand src) :
    (∀ n : Nat, n < 4294967296 → copyNeed n ≤ r.pool.free.length →
      ∃ r' code, copy dst src n r = .ok () r' ∧ r'.code.toList = r.code.toList ++ code ∧
        r.pool.Borrows r'.pool (copyNeed n) ∧ ∀ image handlers, Runs image handlers code
          (fun s => Within (s.reg dst).toNat n s.memory.size ∧
            Within (s.reg src).toNat n s.memory.size)
          fun s t => CopyEffect (s.reg dst).toNat (s.reg src).toNat n
            (· ∉ r.pool.free.take (copyNeed n)) s t) ∧
    ∀ n : Register, r.pool.Operand n → n ≠ .one → 4 ≤ r.pool.free.length →
      ∃ r' code, copyCounted dst src n r = .ok () r' ∧ r'.code.toList = r.code.toList ++ code ∧
        r.pool.Borrows r'.pool 4 ∧ ∀ image handlers, Runs image handlers code
          (fun s => Within (s.reg dst).toNat (s.reg n).toNat s.memory.size ∧
            Within (s.reg src).toNat (s.reg n).toNat s.memory.size)
          fun s t => t.reg n = 0 ∧ CopyEffect (s.reg dst).toNat (s.reg src).toNat (s.reg n).toNat
            (fun q => q ∉ r.pool.free.take 4 ∧ q ≠ n) s t := by
  have hdst' := hvalid.withholds_operand hdst
  have hsrc' := hvalid.withholds_operand hsrc
  constructor
  · intro n hn hneed
    obtain ⟨r', h⟩ := copy_succeeds dst src (by omega : (n : Int) < 4294967296) hneed
    obtain ⟨hborrows, code, hr, hruns⟩ := copy_ascends hname hdst' hsrc' h
    refine ⟨r', code, h, by rw [hr]; simp, hborrows, fun image handlers a s hp hs hone hin => ?_⟩
    obtain ⟨t, hst, htpc, ht, htreg⟩ := hruns image handlers a s hp hs hone hin
    exact ⟨t, hst, htpc, ht.effect htreg⟩
  · intro n hn hnone hneed
    obtain ⟨r', h⟩ := copyCounted_succeeds dst src (n := n) hneed
    obtain ⟨hborrows, code, hr, hruns⟩ :=
      copyCounted_runs hname hdst' hsrc' (hvalid.withholds_operand hn) hnone h
    refine ⟨r', code, h, by rw [hr]; simp, hborrows, fun image handlers a s hp hs hone hin => ?_⟩
    obtain ⟨t, hst, htpc, ht, htn, htreg⟩ := hruns image handlers a s hp hs hone hin
    exact ⟨t, hst, htpc, htn, ht.effect fun q hq => htreg q hq.1 hq.2⟩

/-- A function with two addresses in `r1` and `r2`, and a count in `r3`. -/
def copier : Routine :=
  { Routine.function "f" [] false with
    pool := { live := [.ofNat 3, .ofNat 2, .ofNat 1], ever := [.ofNat 3, .ofNat 2, .ofNat 1] } }

/-- Nine words from address 32 on, the first of which is 7, are to be copied one word further up. -/
def copyStart (image : Image) : State :=
  { registers := ((((Vector.replicate 64 0).set! 1 33).set! 2 32).set! 3 9).set! 62 1
    memory := image.memory.setIfInBounds 32 7
    pc := 0
    interrupted := [] }

/-- Where the copy starts, both blocks lie in memory, and the first word to be copied is 7. -/
theorem copyStart_blocks {image : Image} (h : image.memory.size = 64) :
    (copyStart image).word 32 = 7 ∧ Within 33 9 (copyStart image).memory.size ∧
      Within 32 9 (copyStart image).memory.size := by
  have hsize : (copyStart image).memory.size = 64 := by simp [copyStart, h]
  refine ⟨by simp [copyStart, State.word, h], fun i hi => ?_, fun i hi => ?_⟩ <;>
    rw [hsize] <;> omega

/-- A copy one word further up spreads the first word, whether its size is known or counted. -/
theorem copy_lowering_overlapping :
    (∃ r' image t, copy (.ofNat 1) (.ofNat 2) (9 : Nat) copier = .ok () r' ∧
      Image.assemble r'.code.toList 64 = .ok image ∧ Reaches image [] (copyStart image) t ∧
      t.word 41 = 7 ∧ t.reg (.ofNat 3) = 9) ∧
    ∃ r' image t, copyCounted (.ofNat 1) (.ofNat 2) (.ofNat 3) copier = .ok () r' ∧
      Image.assemble r'.code.toList 64 = .ok image ∧ Reaches image [] (copyStart image) t ∧
      t.word 41 = 7 ∧ t.reg (.ofNat 3) = 0 := by
  obtain ⟨hknown, hcounted⟩ := @copy_lowering copier (.ofNat 1) (.ofNat 2)
    ⟨by decide, by decide, by decide⟩ (by decide) (.inl (by decide)) (.inl (by decide))
  have hspread (m : Nat → Word) : ascending 33 32 m 9 41 = m 32 := by simp [ascending]
  constructor
  · obtain ⟨r', code, hcopy, hcode, -, hruns⟩ := hknown 9 (by decide) (by decide)
    obtain ⟨_, r'', image, hcopy', himage⟩ :=
      exists_of_assembles (x := copy (.ofNat 1) (.ofNat 2) (9 : Nat)) (r := copier) (by decide +kernel)
    obtain rfl : r' = r'' := by injection hcopy.symm.trans hcopy'
    obtain ⟨-, hle, -⟩ := Machine.assemble_ok himage
    have hplaced := Machine.placed_of_assemble himage (by omega)
    rw [hcode] at hplaced
    obtain ⟨hword, hblocks⟩ := copyStart_blocks (Machine.size_memory_of_assemble himage)
    obtain ⟨t, hst, -, heffect⟩ := hruns image [] 0 (copyStart image) hplaced rfl rfl hblocks
    refine ⟨r', image, t, hcopy, himage, hst, ?_, heffect.reg (.ofNat 3) (by decide)⟩
    rw [heffect.ascends.word]
    exact (hspread _).trans hword
  · obtain ⟨r', code, hcopy, hcode, -, hruns⟩ :=
      hcounted (.ofNat 3) (.inl (by decide)) (by decide) (by decide)
    obtain ⟨_, r'', image, hcopy', himage⟩ := exists_of_assembles
      (x := copyCounted (.ofNat 1) (.ofNat 2) (.ofNat 3)) (r := copier) (by decide +kernel)
    obtain rfl : r' = r'' := by injection hcopy.symm.trans hcopy'
    obtain ⟨-, hle, -⟩ := Machine.assemble_ok himage
    have hplaced := Machine.placed_of_assemble himage (by omega)
    rw [hcode] at hplaced
    obtain ⟨hword, hblocks⟩ := copyStart_blocks (Machine.size_memory_of_assemble himage)
    obtain ⟨t, hst, -, hcount, heffect⟩ := hruns image [] 0 (copyStart image) hplaced rfl rfl hblocks
    refine ⟨r', image, t, hcopy, himage, hst, ?_, hcount⟩
    rw [heffect.ascends.word]
    exact (hspread _).trans hword

/-- A copy of a run-time count uses its count up, although that register is in use and not one it
takes itself. -/
theorem copyCounted_consumes_count :
    ∃ r' image t, copyCounted (.ofNat 1) (.ofNat 2) (.ofNat 3) copier = .ok () r' ∧
      Image.assemble r'.code.toList 64 = .ok image ∧ Reaches image [] (copyStart image) t ∧
      t.pc = UInt32.ofNat (totalSize r'.code.toList) ∧
      .ofNat 3 ∈ copier.pool.live ∧ .ofNat 3 ∉ copier.pool.free.take 4 ∧
      (copyStart image).reg (.ofNat 3) = 9 ∧ t.reg (.ofNat 3) = 0 := by
  obtain ⟨_, r', image, hcopy, himage⟩ := exists_of_assembles
    (x := copyCounted (.ofNat 1) (.ofNat 2) (.ofNat 3)) (r := copier) (by decide +kernel)
  have hvalid : copier.pool.Valid := ⟨by decide, by decide, by decide⟩
  obtain ⟨-, code, hr, hruns⟩ := copyCounted_runs (by decide) (hvalid.withholds (by decide))
    (hvalid.withholds (by decide)) (hvalid.withholds (by decide)) (by decide) hcopy
  have hcode : r'.code.toList = code := by rw [hr]; simp [copier, Routine.function, Routine.create]
  obtain ⟨-, hle, -⟩ := Machine.assemble_ok himage
  have hplaced := Machine.placed_of_assemble himage (by omega)
  rw [hcode] at hplaced
  obtain ⟨-, hblocks⟩ := copyStart_blocks (Machine.size_memory_of_assemble himage)
  obtain ⟨t, hst, htpc, -, hcount, -⟩ :=
    hruns image [] 0 (copyStart image) hplaced rfl rfl hblocks
  refine ⟨r', image, t, hcopy, himage, hst, ?_, by decide, by decide, rfl, hcount⟩
  rw [htpc, hcode, Nat.zero_add]

end Qll.Codegen
