import Qll.Codegen.Copy
import Qll.Proofs.Codegen.Registers

/-!
# Counts, jumps and copies at run time

Code that adds or subtracts a count, code that jumps, and code that copies words takes registers and
gives them back. Each piece is described twice: what it leaves of the routine under construction, and
what the machine does when it runs. Words are copied one by one in ascending order, so where the blocks
overlap a word may be copied on. That is the same change of memory, `Ascends`, whether it is written
out or runs in a loop; between disjoint blocks it is a plain copy, `Copied`.
-/

namespace Qll.Codegen

open Assembly (Directive Value totalSize)
open Machine (Register Opcode Word Image Handlers State Placed Reaches ins)
open Qll.Computation

/-! ## Pools that come back -/

/-- The same registers are in use, and none is forgotten. -/
structure Pool.Kept (p p' : Pool) : Prop where
  live : p'.live = p.live
  ever : ∀ q ∈ p.ever, q ∈ p'.ever
  valid : p.Valid → p'.Valid

namespace Pool.Kept

variable {p p₁ p₂ p' : Pool} {q : Register}

/-- A pool keeps itself. -/
theorem refl (p : Pool) : p.Kept p := ⟨rfl, fun _ h => h, id⟩

/-- Keeping is transitive. -/
theorem trans (h : p.Kept p₁) (h' : p₁.Kept p₂) : p.Kept p₂ :=
  ⟨h'.live.trans h.live, fun x hx => h'.ever x (h.ever x hx), fun hp => h'.valid (h.valid hp)⟩

/-- A register that is taken and given back after code that keeps the pool. -/
theorem around (ht : p.allocate = .ok (q, p₁)) (h : p₁.Kept p₂) (hr : p₂.release q = .ok p') :
    p.Kept p' := by
  obtain ⟨-, -, hlive, hever⟩ := allocate_eq_ok ht
  obtain ⟨-, rfl⟩ := release_eq_ok hr
  refine ⟨?_, fun x hx => h.ever x ((hever x).2 (.inr hx)), fun hp => ?_⟩
  · rw [h.live, hlive, List.erase_cons_head]
  · exact (h.valid (hp.allocate ht)).release hr

/-- The same registers are free. -/
theorem free (h : p.Kept p') : p'.free = p.free := by
  simp only [Pool.free, Pool.isAllocated, h.live]

end Pool.Kept

/-- The first `k` free registers were taken, and were given back. -/
structure Pool.Borrows (p p' : Pool) (k : Nat) : Prop where
  kept : p.Kept p'
  ever : ∀ q, q ∈ p'.ever ↔ q ∈ p.free.take k ∨ q ∈ p.ever

namespace Pool.Borrows

variable {p p₁ p₂ p' : Pool} {q : Register} {j k : Nat}

/-- Nothing is taken. -/
theorem zero (p : Pool) : p.Borrows p 0 := ⟨.refl p, by simp⟩

/-- A register is taken around code that takes others. -/
theorem around (ht : p.allocate = .ok (q, p₁)) (h : p₁.Borrows p₂ k)
    (hr : p₂.release q = .ok p') : p.Borrows p' (k + 1) := by
  refine ⟨.around ht h.kept hr, fun x => ?_⟩
  rw [Pool.release_ever hr, h.ever, (Pool.allocate_eq_ok ht).2.2.2, Pool.free_of_allocate ht,
    List.take_succ_cons, List.mem_cons, or_left_comm, or_assoc]

/-- What takes fewer registers may come first. -/
theorem trans (h : p.Borrows p₁ j) (h' : p₁.Borrows p' k) (hjk : j ≤ k) : p.Borrows p' k := by
  refine ⟨h.kept.trans h'.kept, fun x => ?_⟩
  rw [h'.ever, h.ever, h.kept.free, ← or_assoc,
    or_iff_left_of_imp fun hx => List.take_subset_take_left p.free hjk hx]

/-- A register that is left alone is not among those taken. -/
theorem notMem (h : p.Borrows p' k) (hq : Untouched p p' q) : q ∉ p.free.take k := by
  intro hmem
  rcases hq with hlive | hever
  · exact (Pool.mem_free.1 (List.mem_of_mem_take hmem)).2 hlive
  · exact hever ((h.ever q).2 (.inl hmem))

end Pool.Borrows

/-! ## Running a piece of code -/

/-- Code that is in place runs from its start to its end: every state at the start that meets `pre`
leads to a state at the end that is related to it by `post`. -/
def Runs (image : Image) (handlers : Handlers) (code : List Directive) (pre : State → Prop)
    (post : State → State → Prop) : Prop :=
  ∀ a s, Placed image a code → s.pc = UInt32.ofNat a → s.reg .one = 1 → pre s →
    ∃ t, Reaches image handlers s t ∧ t.pc = UInt32.ofNat (a + totalSize code) ∧ post s t

/-- Whether a step succeeds and leaves code that assembles in 64 words of memory. -/
def assembles {α : Type} (x : Gen α) (r : Routine) : Bool :=
  match x r with
  | .ok _ r' => (Image.assemble r'.code.toList 64).toOption.isSome
  | .error _ _ => false

/-- The image of code that assembles. -/
theorem exists_of_assembles {α : Type} {x : Gen α} {r : Routine} (h : assembles x r = true) :
    ∃ a r' image, x r = .ok a r' ∧ Image.assemble r'.code.toList 64 = .ok image := by
  unfold assembles at h
  split at h
  · next a r' hx =>
    cases himage : Image.assemble r'.code.toList 64 with
    | error e =>
      rw [himage] at h
      cases h
    | ok image => exact ⟨a, r', image, hx, himage⟩
  · cases h

section Adjusting

variable (image : Image) (handlers : Handlers) {r r' : Routine} {u : Unit}

/-- What changing a register by a count leaves of the routine. -/
theorem adjust_ok {op : Opcode} {x : Register} {n : Int} (h : adjust op x n r = .ok u r') :
    0 ≤ n ∧ n < 4294967296 ∧ r.pool.Kept r'.pool ∧ ∃ code, r' = (r.plus code).withPool r'.pool ∧
      (n = 0 ∧ code = [] ∨ n = 1 ∧ code = [ins op [x, x, .one]] ∨
        ∃ t, t ∈ Pool.allocatable ∧ t ∉ r.pool.live ∧ t ∈ r'.pool.ever ∧
          code = [.constant t (.immediate (UInt32.ofNat n.toNat)), ins op [x, x, t]]) := by
  unfold adjust at h
  by_cases hzero : n = 0
  · simp only [hzero, ↓reduceIte, pure_ok] at h
    obtain ⟨-, rfl⟩ := h
    exact ⟨by omega, by omega, .refl _, [], by simp, .inl ⟨hzero, rfl⟩⟩
  by_cases hone : n = 1
  · simp only [hone, ↓reduceIte, emit_ok, Int.one_ne_zero] at h
    obtain ⟨-, rfl⟩ := h
    exact ⟨by omega, by omega, .refl _, _, rfl, .inr (.inl ⟨hone, rfl⟩)⟩
  · simp only [hzero, hone, ↓reduceIte, allocate_front, loadCount_front, emit_front, release_ok] at h
    obtain ⟨t, p, ht, hlow, hhigh, -, p', hp', rfl⟩ := h
    obtain ⟨hmem, hnew, -, hever⟩ := Pool.allocate_eq_ok ht
    have hkept : r.pool.Kept p' := .around ht (.refl p) hp'
    have hrelease := (Pool.release_eq_ok hp').2
    refine ⟨hlow, hhigh, hkept, _, ?_, .inr (.inr ⟨t, hmem, hnew, ?_, rfl⟩)⟩
    · simp
    · simp only [hrelease]
      exact (hever t).2 (.inl rfl)

/-- Changing a register by a count. -/
theorem adjust_runs {op : Opcode} {x : Register} {n : Int} {g : Word → Word → Word}
    (hop : ∀ pc a b, Machine.binary pc op a b = .ok (g a b)) (hg : ∀ a, g a 0 = a)
    (hx : x.Writable) (hlive : x ∈ r.pool.live ∨ x = .sp) (h : adjust op x n r = .ok u r') :
    ∃ code, r' = (r.plus code).withPool r'.pool ∧
      Runs image handlers code (fun _ => True) fun s t =>
        t.reg x = g (s.reg x) (UInt32.ofNat n.toNat) ∧
          (∀ q, Untouched r.pool r'.pool q → q ≠ x → t.reg q = s.reg q) ∧
          t.memory = s.memory ∧ t.interrupted = s.interrupted := by
  obtain ⟨-, -, -, code, hr, hcode⟩ := adjust_ok h
  refine ⟨code, hr, fun a s hp hs hone _ => ?_⟩
  rcases hcode with ⟨rfl, rfl⟩ | ⟨rfl, rfl⟩ | ⟨t, hmem, hnew, hever, rfl⟩
  · refine ⟨s, .refl s, by simpa using hs, ?_, fun _ _ _ => rfl, rfl, rfl⟩
    exact (hg _).symm
  · refine ⟨_, Machine.reaches_binary handlers hp.1 hs (hop ..) hx hx.lt (by decide) hone, rfl, ?_,
      fun q _ hq => State.reg_assign_of_ne _ _ _ _ _ hq, rfl, rfl⟩
    rw [State.reg_assign_self _ _ _ _ hx.lt, hone]
    rfl
  · have ht := Pool.writable_of_mem hmem
    have hne : x ≠ t := by
      rcases hlive with hlive | rfl
      · rintro rfl
        exact hnew hlive
      · exact (Pool.ne_sp_of_mem hmem).symm
    have hrun₁ := Machine.reaches_constant handlers hp.1 rfl hs ht hone
    have hrun₂ := Machine.reaches_binary handlers hp.2.1 rfl (hop ..) hx hx.lt ht.lt
      (hrun₁.one hone)
    refine ⟨_, hrun₁.trans hrun₂, rfl, ?_, fun q hq hqx => ?_, rfl, rfl⟩
    · rw [State.reg_assign_self _ _ _ _ hx.lt, State.reg_assign_self _ _ _ _ ht.lt,
        State.reg_assign_of_ne _ _ _ _ _ hne]
    · rw [State.reg_assign_of_ne _ _ _ _ _ hqx,
        State.reg_assign_of_ne _ _ _ _ _ (hq.ne hnew hever)]

end Adjusting

/-! ## Jumping -/

section Jumping

variable {r r' : Routine} {u : Unit} {n : Register}

/-- A jump that depends on whether a register is zero: `jz` is taken if it is, `jnz` if it is not. -/
theorem jumpBy_runs {op : Opcode} {label : String} (hop : op = .jz ∨ op = .jnz)
    (hn : r.pool.Withholds n) (h : jumpBy label (fun t => emit op [n, t]) r = .ok u r') :
    r.pool.Borrows r'.pool 1 ∧ ∃ code, totalSize code = 3 ∧ r' = (r.plus code).withPool r'.pool ∧
      ∀ image handlers a s, Placed image a code → s.pc = UInt32.ofNat a → s.reg .one = 1 →
        ∃ t, Reaches image handlers s t ∧
          t.pc = (if s.reg n = 0 ↔ op = .jz then Image.resolve image.labels (symbol label)
            else UInt32.ofNat (a + 3)) ∧
          (∀ q, q ∉ r.pool.free.take 1 → t.reg q = s.reg q) ∧ t.memory = s.memory ∧
          t.interrupted = s.interrupted := by
  simp only [jumpBy, allocate_front, loadAddress_front, emit_front, release_ok] at h
  obtain ⟨t, p, ht, -, p', ht', rfl⟩ := h
  have hwritable := Pool.writable_of_mem (Pool.allocate_eq_ok ht).1
  refine ⟨.around ht (.zero p) ht', [.constant t (.reference (symbol label)), ins op [n, t]], rfl,
    by simp, ?_⟩
  rintro image handlers a s ⟨hconstant, hjump, -⟩ hs hone
  have hrun₁ := Machine.reaches_constant handlers hconstant rfl hs hwritable hone
  generalize hm : State.assign s t _ _ = m at hrun₁
  have htarget : m.reg t = Image.resolve image.labels (symbol label) := by
    rw [← hm, State.reg_assign_self _ _ _ _ hwritable.lt]
  have hkeep (q : Register) (hq : q ≠ t) : m.reg q = s.reg q := by
    rw [← hm, State.reg_assign_of_ne _ _ _ _ _ hq]
  have hrun₂ : Reaches image handlers m (m.goto (if s.reg n = 0 ↔ op = .jz
      then Image.resolve image.labels (symbol label) else UInt32.ofNat (a + 3))) := by
    rw [← hkeep n (hn.ne ht), ← htarget]
    have hpc : m.pc = UInt32.ofNat (a + 2) := by rw [← hm]; rfl
    obtain rfl | rfl := hop
    · simp only [iff_true]
      exact Machine.reaches_jz handlers hjump hpc hn.lt hwritable.lt (hrun₁.one hone)
    · simp only [reduceCtorEq, iff_false, ite_not]
      exact Machine.reaches_jnz handlers hjump hpc hn.lt hwritable.lt (hrun₁.one hone)
  refine ⟨_, hrun₁.trans hrun₂, rfl, fun q hq => ?_, by rw [← hm]; rfl, by rw [← hm]; rfl⟩
  rw [State.goto_reg, hkeep q]
  rintro rfl
  simp [Pool.free_of_allocate ht] at hq

/-- A jump that is taken if a register is zero. -/
theorem jumpIfZero_runs {label : String} (hn : r.pool.Withholds n)
    (h : jumpIfZero n label r = .ok u r') :
    r.pool.Borrows r'.pool 1 ∧ ∃ code, totalSize code = 3 ∧ r' = (r.plus code).withPool r'.pool ∧
      ∀ image handlers a s, Placed image a code → s.pc = UInt32.ofNat a → s.reg .one = 1 →
        ∃ t, Reaches image handlers s t ∧
          t.pc = (if s.reg n = 0 then Image.resolve image.labels (symbol label)
            else UInt32.ofNat (a + 3)) ∧
          (∀ q, q ∉ r.pool.free.take 1 → t.reg q = s.reg q) ∧ t.memory = s.memory ∧
          t.interrupted = s.interrupted := by
  simpa using jumpBy_runs (.inl rfl) hn h

end Jumping

/-! ## Copied words -/

/-- Memory after `n` words were copied from `src` on to `dst` on, one by one in ascending order. -/
def ascending (dst src : Nat) (m : Nat → Word) : Nat → Nat → Word
  | 0 => m
  | n + 1 => Function.update (ascending dst src m n) (dst + n) (ascending dst src m n (src + n))

section Ascending

variable {dst src n x : Nat} (m : Nat → Word)

/-- The first word is copied before the others. -/
theorem ascending_succ :
    ascending dst src m (n + 1) =
      ascending (dst + 1) (src + 1) (Function.update m dst (m src)) n := by
  induction n with
  | zero => rfl
  | succ n ih =>
    rw [ascending, ih, ascending, show dst + (n + 1) = dst + 1 + n by omega,
      show src + (n + 1) = src + 1 + n by omega]

/-- Words outside the block that is written keep their contents. -/
theorem ascending_other (hx : x < dst ∨ dst + n ≤ x) : ascending dst src m n x = m x := by
  induction n with
  | zero => rfl
  | succ n ih => rw [ascending, Function.update_of_ne (by omega), ih (by omega)]

/-- If the blocks have no word in common, each word is copied as it was. -/
theorem ascending_of_apart {i : Nat} (h : dst + n ≤ src ∨ src + n ≤ dst) (hi : i < n) :
    ascending dst src m n (dst + i) = m (src + i) := by
  induction n with
  | zero => omega
  | succ n ih =>
    rw [ascending]
    rcases Nat.lt_succ_iff_lt_or_eq.1 hi with hlt | rfl
    · rw [Function.update_of_ne (by omega), ih (by omega) hlt]
    · rw [Function.update_self, ascending_other m (by omega)]

end Ascending

/-- From one state to another `n` words were copied in ascending order, and nothing else changed in
memory. -/
structure Ascends (dst src n : Nat) (s t : State) : Prop where
  word : t.word = ascending dst src s.word n
  size : t.memory.size = s.memory.size
  interrupted : t.interrupted = s.interrupted

/-- A block of `n` words lies in memory, and the addresses of its words do not overflow. -/
def Within (a n size : Nat) : Prop := ∀ i < n, a + i < size ∧ a + i < 4294967296

/-- The rest of a block lies in memory with it. -/
theorem Within.rest {a n size : Nat} (h : Within a (n + 1) size) : Within (a + 1) n size :=
  fun i hi => by
    have := h (i + 1) (by omega)
    omega

/-- The address of a word that is not the last one can be counted up. -/
theorem Within.toNat_add_one {w : Word} {n size : Nat} (h : Within w.toNat (n + 2) size) :
    (w + 1).toNat = w.toNat + 1 :=
  Machine.toNat_add_one (h 1 (by omega)).2

/-- `n` words from `src` on were copied to the words from `dst` on. -/
structure Copied (dst src n : Nat) (s t : State) : Prop where
  word : ∀ i < n, t.word (dst + i) = s.word (src + i)
  other : ∀ x, x < dst ∨ dst + n ≤ x → t.word x = s.word x
  size : t.memory.size = s.memory.size
  interrupted : t.interrupted = s.interrupted

/-- Two blocks of `n` words that have no word in common and lie in memory. -/
structure Apart (dst src n size : Nat) : Prop where
  apart : dst + n ≤ src ∨ src + n ≤ dst
  dst_le : dst + n ≤ size
  src_le : src + n ≤ size

namespace Ascends

variable {dst src n : Nat} {s s' t u : State}

/-- Nothing is copied. -/
theorem refl (s : State) : Ascends dst src 0 s s := ⟨rfl, rfl, rfl⟩

/-- One word is copied, then the words behind it. -/
theorem cons (h : Ascends dst src 1 s t) (h' : Ascends (dst + 1) (src + 1) n t u) :
    Ascends dst src (n + 1) s u where
  word := by
    rw [h'.word, h.word, ascending_succ, ascending_succ, ascending]
  size := h'.size.trans h.size
  interrupted := h'.interrupted.trans h.interrupted

/-- A copy depends on memory alone. -/
theorem congr (h : Ascends dst src n s t) (hmemory : s.memory = s'.memory)
    (hinterrupted : s.interrupted = s'.interrupted) : Ascends dst src n s' t := by
  have hword := State.word_eq_of_memory hmemory
  exact ⟨by rw [h.word, hword], by rw [h.size, hmemory], by rw [h.interrupted, hinterrupted]⟩

/-- What happens to memory afterwards, if anything, is part of what happened. -/
theorem congr_end (h : Ascends dst src n s t) (hmemory : u.memory = t.memory)
    (hinterrupted : u.interrupted = t.interrupted) : Ascends dst src n s u := by
  have hword := State.word_eq_of_memory hmemory
  exact ⟨by rw [hword, h.word], by rw [hmemory, h.size], by rw [hinterrupted, h.interrupted]⟩

/-- Between blocks that have no word in common it is a plain copy. -/
theorem copied (h : Ascends dst src n s t) (happart : dst + n ≤ src ∨ src + n ≤ dst) :
    Copied dst src n s t where
  word i hi := by rw [h.word, ascending_of_apart _ happart hi]
  other x hx := by rw [h.word, ascending_other _ hx]
  size := h.size
  interrupted := h.interrupted

end Ascends

/-- A copy depends on memory alone. -/
theorem Copied.congr {dst src n : Nat} {s s' t : State} (h : Copied dst src n s t)
    (hmemory : s.memory = s'.memory) (hinterrupted : s.interrupted = s'.interrupted) :
    Copied dst src n s' t := by
  have hword := State.word_eq_of_memory hmemory
  exact ⟨fun i hi => by rw [h.word i hi, hword], fun x hx => by rw [h.other x hx, hword],
    by rw [h.size, hmemory], by rw [h.interrupted, hinterrupted]⟩

section Copying

variable {image : Image} (handlers : Handlers) {a : Nat} {s : State} {pd ps v : Register}

/-- Loading a word and storing it elsewhere copies it. -/
theorem reaches_copy_word (hload : Machine.Holds image a (ins .load [v, ps]))
    (hstore : Machine.Holds image (a + 1) (ins .store [pd, v])) (hs : s.pc = UInt32.ofNat a)
    (hone : s.reg .one = 1) (hv : v.Writable) (hpd : pd.toNat < 64) (hps : ps.toNat < 64)
    (hne : pd ≠ v) (hdst : (s.reg pd).toNat < s.memory.size)
    (hsrc : (s.reg ps).toNat < s.memory.size) :
    ∃ t, Reaches image handlers s t ∧ t.pc = UInt32.ofNat (a + 2) ∧
      Ascends (s.reg pd).toNat (s.reg ps).toNat 1 s t ∧ ∀ q, q ≠ v → t.reg q = s.reg q := by
  have hrun₁ := Machine.reaches_load handlers hload hs hsrc hv hps hone
  have hpd₁ : (s.assign v (s.word (s.reg ps).toNat) (UInt32.ofNat (a + 1))).reg pd = s.reg pd :=
    State.reg_assign_of_ne _ _ _ _ _ hne
  have hrun₂ := Machine.reaches_store handlers hstore rfl (by rw [hpd₁]; exact hdst) hpd hv.lt
    (hrun₁.one hone)
  rw [hpd₁, State.reg_assign_self _ _ _ _ hv.lt] at hrun₂
  refine ⟨_, hrun₁.trans hrun₂, rfl, ⟨?_, by simp, rfl⟩, fun q hq => ?_⟩
  · funext x
    rw [State.word_put _ _ _ _ _ (by exact hdst), ascending, ascending, Function.update_apply]
    rfl
  · rw [State.put_reg, State.reg_assign_of_ne _ _ _ _ _ hq]

/-- Counting both addresses of a copy up. -/
theorem reaches_copy_next (hsrc : Machine.Holds image a (ins .add [ps, ps, .one]))
    (hdst : Machine.Holds image (a + 1) (ins .add [pd, pd, .one])) (hs : s.pc = UInt32.ofNat a)
    (hone : s.reg .one = 1) (hpd : pd.Writable) (hps : ps.Writable) (hne : pd ≠ ps) :
    ∃ t, Reaches image handlers s t ∧ t.pc = UInt32.ofNat (a + 2) ∧ t.memory = s.memory ∧
      t.interrupted = s.interrupted ∧ t.reg pd = s.reg pd + 1 ∧ t.reg ps = s.reg ps + 1 ∧
      ∀ q, q ≠ pd → q ≠ ps → t.reg q = s.reg q := by
  have hrun₁ := Machine.reaches_binary handlers hsrc hs rfl hps hps.lt (by decide) hone
  have hone₁ := hrun₁.one hone
  have hrun₂ := Machine.reaches_binary handlers hdst rfl rfl hpd hpd.lt (by decide) hone₁
  refine ⟨_, hrun₁.trans hrun₂, rfl, rfl, rfl, ?_, ?_, fun q hqd hqs => ?_⟩
  · rw [State.reg_assign_self _ _ _ _ hpd.lt, State.reg_assign_of_ne _ _ _ _ _ hne, hone₁]
  · rw [State.reg_assign_of_ne _ _ _ _ _ hne.symm, State.reg_assign_self _ _ _ _ hps.lt, hone]
  · rw [State.reg_assign_of_ne _ _ _ _ _ hqd, State.reg_assign_of_ne _ _ _ _ _ hqs]

/-- The registers of a copy. -/
structure CopyRegisters (pd ps v : Register) : Prop where
  dst : pd.Writable
  src : ps.Writable
  value : v.Writable
  dst_src : pd ≠ ps
  dst_value : pd ≠ v
  src_value : ps ≠ v

/-- The code of a copy of `n` words one by one. -/
def copyCode (pd ps v : Register) : Nat → List Directive
  | 0 => []
  | n + 1 =>
    ins .load [v, ps] :: ins .store [pd, v] ::
      ((if n ≠ 0 then [ins .add [ps, ps, .one], ins .add [pd, pd, .one]] else []) ++
        copyCode pd ps v n)

/-- Copying words one by one emits their code. -/
theorem copyWords_ok {n : Nat} {r r' : Routine} {u : Unit} :
    copyWords pd ps v n r = .ok u r' ↔ r.plus (copyCode pd ps v n) = r' := by
  induction n generalizing r with
  | zero => simp [copyWords, copyCode]
  | succ n ih =>
    by_cases hn : n = 0
    · subst hn
      simp [copyWords, copyCode, Opcode.operands]
    · simp [copyWords, copyCode, Opcode.operands, hn, ih]

/-- The copying loop may be taken off the front of what is generated. -/
theorem copyWords_front {α : Type} {b : α} {f : Unit → Gen α} {n : Nat} {r r' : Routine} :
    (copyWords pd ps v n >>= f) r = .ok b r' ↔ f () (r.plus (copyCode pd ps v n)) = .ok b r' :=
  front_total fun _ _ => copyWords_ok

/-- Words that are copied one by one. -/
theorem reaches_copyCode {n : Nat} (hregs : CopyRegisters pd ps v)
    (hp : Placed image a (copyCode pd ps v n)) (hs : s.pc = UInt32.ofNat a) (hone : s.reg .one = 1)
    (hdst : Within (s.reg pd).toNat n s.memory.size)
    (hsrc : Within (s.reg ps).toNat n s.memory.size) :
    ∃ t, Reaches image handlers s t ∧ t.pc = UInt32.ofNat (a + totalSize (copyCode pd ps v n)) ∧
      Ascends (s.reg pd).toNat (s.reg ps).toNat n s t ∧
      ∀ q, q ≠ pd → q ≠ ps → q ≠ v → t.reg q = s.reg q := by
  induction n generalizing a s with
  | zero => exact ⟨s, .refl s, hs, .refl s, fun _ _ _ _ => rfl⟩
  | succ n ih =>
    simp only [copyCode, Machine.placed_cons, Machine.placed_append] at hp
    obtain ⟨hload, hstore, hadds, hrest⟩ := hp
    obtain ⟨t, hst, htpc, ht, htreg⟩ := reaches_copy_word handlers hload hstore hs hone hregs.value
      hregs.dst.lt hregs.src.lt hregs.dst_value (hdst 0 (by omega)).1 (hsrc 0 (by omega)).1
    cases n with
    | zero => exact ⟨t, hst, htpc, ht, fun q _ _ hq => htreg q hq⟩
    | succ n =>
      rw [if_pos n.succ_ne_zero] at hadds hrest
      obtain ⟨hadd₁, hadd₂, -⟩ := hadds
      obtain ⟨u, htu, hupc, humemory, huint, hudst, husrc, hureg⟩ :=
        reaches_copy_next handlers hadd₁ hadd₂ htpc (hst.one hone) hregs.dst hregs.src hregs.dst_src
      have hdst' : (u.reg pd).toNat = (s.reg pd).toNat + 1 := by
        rw [hudst, htreg pd hregs.dst_value, hdst.toNat_add_one]
      have hsrc' : (u.reg ps).toNat = (s.reg ps).toNat + 1 := by
        rw [husrc, htreg ps hregs.src_value, hsrc.toNat_add_one]
      have husize : u.memory.size = s.memory.size := by rw [humemory, ht.size]
      obtain ⟨w, huw, hwpc, hw, hwreg⟩ := ih hrest hupc ((hst.trans htu).one hone)
        (by rw [hdst', husize]; exact hdst.rest) (by rw [hsrc', husize]; exact hsrc.rest)
      rw [hdst', hsrc'] at hw
      refine ⟨w, hst.trans (htu.trans huw), ?_, ht.cons (hw.congr humemory huint),
        fun q hqd hqs hqv => ?_⟩
      · rw [hwpc, copyCode.eq_def pd ps v (n + 1 + 1)]
        simp only [if_pos n.succ_ne_zero, Machine.totalSize_cons, Machine.totalSize_append,
          Machine.size_instruction, Machine.totalSize_nil]
        congr 1
        omega
      · rw [hwreg q hqd hqs hqv, hureg q hqd hqs, htreg q hqv]

/-- The body of a copying loop, which counts `n` down and jumps back to `target`. -/
def loopCode (pd ps v n target : Register) : List Directive :=
  [ins .load [v, ps], ins .store [pd, v], ins .add [ps, ps, .one], ins .add [pd, pd, .one],
    ins .sub [n, n, .one], ins .jnz [n, target]]

/-- The registers of a copying loop. -/
structure LoopRegisters (pd ps v n target : Register) : Prop extends CopyRegisters pd ps v where
  count : n.Writable
  back : target.Writable
  count_dst : n ≠ pd
  count_src : n ≠ ps
  count_value : n ≠ v
  target_dst : target ≠ pd
  target_src : target ≠ ps
  target_value : target ≠ v
  target_count : target ≠ n

variable {n target : Register}

/-- One round of a copying loop copies a word, moves on and counts down. -/
theorem reaches_round (hregs : LoopRegisters pd ps v n target)
    (hp : Placed image a (loopCode pd ps v n target)) (hs : s.pc = UInt32.ofNat a)
    (hone : s.reg .one = 1) (hdst : (s.reg pd).toNat < s.memory.size)
    (hsrc : (s.reg ps).toNat < s.memory.size) :
    ∃ t, Reaches image handlers s t ∧
      t.pc = (if s.reg n - 1 = 0 then UInt32.ofNat (a + 6) else s.reg target) ∧
      Ascends (s.reg pd).toNat (s.reg ps).toNat 1 s t ∧
      t.reg pd = s.reg pd + 1 ∧ t.reg ps = s.reg ps + 1 ∧ t.reg n = s.reg n - 1 ∧
      ∀ q, q ≠ pd → q ≠ ps → q ≠ v → q ≠ n → t.reg q = s.reg q := by
  obtain ⟨hload, hstore, hadd₁, hadd₂, hsub, hjnz, -⟩ := hp
  obtain ⟨s₁, hrun₁, hpc₁, h₁, hreg₁⟩ := reaches_copy_word handlers hload hstore hs hone
    hregs.value hregs.dst.lt hregs.src.lt hregs.dst_value hdst hsrc
  obtain ⟨s₂, hrun₂, hpc₂, hmemory₂, hint₂, hdst₂, hsrc₂, hreg₂⟩ := reaches_copy_next handlers
    hadd₁ hadd₂ hpc₁ (hrun₁.one hone) hregs.dst hregs.src hregs.dst_src
  have hone₂ := (hrun₁.trans hrun₂).one hone
  have hn₂ : s₂.reg n = s.reg n := by
    rw [hreg₂ n hregs.count_dst hregs.count_src, hreg₁ n hregs.count_value]
  have htarget₂ : s₂.reg target = s.reg target := by
    rw [hreg₂ target hregs.target_dst hregs.target_src, hreg₁ target hregs.target_value]
  have hrun₃ := Machine.reaches_binary handlers hsub hpc₂ rfl hregs.count hregs.count.lt (by decide)
    hone₂
  have hrun₄ := Machine.reaches_jnz handlers hjnz rfl hregs.count.lt hregs.back.lt
    (hrun₃.one hone₂)
  rw [State.reg_assign_self _ _ _ _ hregs.count.lt, State.reg_assign_of_ne _ _ _ _ _
    hregs.target_count, hn₂, hone₂, htarget₂] at hrun₄
  rw [hn₂, hone₂] at hrun₃
  refine ⟨_, hrun₁.trans (hrun₂.trans (hrun₃.trans hrun₄)), rfl, h₁.congr_end hmemory₂ hint₂, ?_, ?_,
    ?_, fun q hd hs hv hn => ?_⟩
  · rw [State.goto_reg, State.reg_assign_of_ne _ _ _ _ _ hregs.count_dst.symm, hdst₂,
      hreg₁ pd hregs.dst_value]
  · rw [State.goto_reg, State.reg_assign_of_ne _ _ _ _ _ hregs.count_src.symm, hsrc₂,
      hreg₁ ps hregs.src_value]
  · rw [State.goto_reg, State.reg_assign_self _ _ _ _ hregs.count.lt]
  · rw [State.goto_reg, State.reg_assign_of_ne _ _ _ _ _ hn, hreg₂ q hd hs, hreg₁ q hv]

/-- Words that are copied in a loop: by induction on the count, one word in each round. -/
theorem reaches_loopCode {k : Nat} (hregs : LoopRegisters pd ps v n target)
    (hp : Placed image a (loopCode pd ps v n target)) (hs : s.pc = UInt32.ofNat a)
    (hone : s.reg .one = 1) (hback : s.reg target = UInt32.ofNat a)
    (hcount : (s.reg n).toNat = k + 1) (hdst : Within (s.reg pd).toNat (k + 1) s.memory.size)
    (hsrc : Within (s.reg ps).toNat (k + 1) s.memory.size) :
    ∃ t, Reaches image handlers s t ∧ t.pc = UInt32.ofNat (a + 6) ∧
      Ascends (s.reg pd).toNat (s.reg ps).toNat (k + 1) s t ∧ t.reg n = 0 ∧
      ∀ q, q ≠ pd → q ≠ ps → q ≠ v → q ≠ n → t.reg q = s.reg q := by
  induction k generalizing s with
  | zero =>
    obtain ⟨t, hst, htpc, ht, -, -, htn, htreg⟩ := reaches_round handlers hregs hp hs hone
      (hdst 0 (by omega)).1 (hsrc 0 (by omega)).1
    have hzero : s.reg n - 1 = 0 := by
      rw [← UInt32.toNat_inj, Machine.toNat_sub_one (by omega), hcount]
      rfl
    rw [if_pos hzero] at htpc
    exact ⟨t, hst, htpc, ht, htn.trans hzero, htreg⟩
  | succ k ih =>
    obtain ⟨t, hst, htpc, ht, htdst, htsrc, htn, htreg⟩ := reaches_round handlers hregs hp hs hone
      (hdst 0 (by omega)).1 (hsrc 0 (by omega)).1
    have hn : (s.reg n - 1).toNat = k + 1 := by
      rw [Machine.toNat_sub_one (by omega), hcount]
      rfl
    have hnonzero : s.reg n - 1 ≠ 0 := by
      intro h
      rw [h] at hn
      exact absurd hn (by simp)
    have hdst' : (t.reg pd).toNat = (s.reg pd).toNat + 1 := by rw [htdst, hdst.toNat_add_one]
    have hsrc' : (t.reg ps).toNat = (s.reg ps).toNat + 1 := by rw [htsrc, hsrc.toNat_add_one]
    have htarget : t.reg target = s.reg target :=
      htreg target hregs.target_dst hregs.target_src hregs.target_value hregs.target_count
    rw [if_neg hnonzero, hback] at htpc
    obtain ⟨u, htu, hupc, hu, hun, hureg⟩ := ih htpc (hst.one hone) (htarget.trans hback)
      (by rw [htn, hn]) (by rw [hdst', ht.size]; exact hdst.rest)
      (by rw [hsrc', ht.size]; exact hsrc.rest)
    rw [hdst', hsrc'] at hu
    refine ⟨u, hst.trans htu, hupc, ht.cons hu, hun, fun q hd hs hv hn => ?_⟩
    rw [hureg q hd hs hv hn, htreg q hd hs hv hn]

end Copying

/-! ## Copies of a given size -/

section Sizes

variable {r r' : Routine} {u : Unit} {dst src : Register}

/-- What a copy between two registers does at run time; it works with the registers in `taken`. -/
def CopyRuns (image : Image) (handlers : Handlers) (code : List Directive) (taken : List Register)
    (dst src : Register) (n : Nat) : Prop :=
  Runs image handlers code
    (fun s => Within (s.reg dst).toNat n s.memory.size ∧ Within (s.reg src).toNat n s.memory.size)
    fun s t => Ascends (s.reg dst).toNat (s.reg src).toNat n s t ∧
      ∀ q, q ∉ taken → t.reg q = s.reg q

/-- Registers that are taken one after the other are those of a copy. -/
theorem copyRegisters_of_allocate {p p₁ p₂ p₃ : Pool} {pd ps v : Register}
    (hpd : p.allocate = .ok (pd, p₁)) (hps : p₁.allocate = .ok (ps, p₂))
    (hv : p₂.allocate = .ok (v, p₃)) :
    CopyRegisters pd ps v ∧ p.free = pd :: ps :: v :: p₃.free := by
  obtain ⟨hpdmem, -, hlive₁, -⟩ := Pool.allocate_eq_ok hpd
  obtain ⟨hpsmem, hpsnew, hlive₂, -⟩ := Pool.allocate_eq_ok hps
  obtain ⟨hvmem, hvnew, -, -⟩ := Pool.allocate_eq_ok hv
  rw [hlive₂, hlive₁, List.mem_cons, List.mem_cons, not_or, not_or] at hvnew
  rw [hlive₁, List.mem_cons, not_or] at hpsnew
  refine ⟨⟨Pool.writable_of_mem hpdmem, Pool.writable_of_mem hpsmem, Pool.writable_of_mem hvmem,
    Ne.symm hpsnew.1, Ne.symm hvnew.2.1, Ne.symm hvnew.1⟩, ?_⟩
  rw [Pool.free_of_allocate hpd, Pool.free_of_allocate hps, Pool.free_of_allocate hv]

/-- A copy starts with copies of its addresses. -/
theorem reaches_copy_start {image : Image} (handlers : Handlers) {pd ps : Register} {a : Nat}
    {s : State}
    (hmov₁ : Machine.Holds image a (ins .mov [pd, dst]))
    (hmov₂ : Machine.Holds image (a + 1) (ins .mov [ps, src])) (hs : s.pc = UInt32.ofNat a)
    (hone : s.reg .one = 1) (hpd : pd.Writable) (hps : ps.Writable) (hdst : dst.toNat < 64)
    (hsrc : src.toNat < 64) (hne : pd ≠ ps) (hsrcne : src ≠ pd) :
    ∃ t, Reaches image handlers s t ∧ t.pc = UInt32.ofNat (a + 2) ∧ t.reg pd = s.reg dst ∧
      t.reg ps = s.reg src ∧ (∀ q, q ≠ pd → q ≠ ps → t.reg q = s.reg q) ∧ t.memory = s.memory ∧
      t.interrupted = s.interrupted := by
  have hrun₁ := Machine.reaches_mov handlers hmov₁ hs hpd hdst hone
  have hrun₂ := Machine.reaches_mov handlers hmov₂ rfl hps hsrc (hrun₁.one hone)
  refine ⟨_, hrun₁.trans hrun₂, rfl, ?_, ?_, fun q hqd hqs => ?_, rfl, rfl⟩
  · rw [State.reg_assign_of_ne _ _ _ _ _ hne, State.reg_assign_self _ _ _ _ hpd.lt]
  · rw [State.reg_assign_self _ _ _ _ hps.lt, State.reg_assign_of_ne _ _ _ _ _ hsrcne]
  · rw [State.reg_assign_of_ne _ _ _ _ _ hqs, State.reg_assign_of_ne _ _ _ _ _ hqd]

/-- Words copied one by one with registers of their own. -/
theorem copyUnrolled_runs {n : Nat} (hdst : r.pool.Withholds dst) (hsrc : r.pool.Withholds src)
    (h : copyUnrolled dst src n r = .ok u r') :
    r.pool.Borrows r'.pool 3 ∧ ∃ code, r' = (r.plus code).withPool r'.pool ∧
      ∀ image handlers, CopyRuns image handlers code (r.pool.free.take 3) dst src n := by
  simp only [copyUnrolled, allocate_front, emit_front, copyWords_front, release_front,
    release_ok] at h
  obtain ⟨pd, p₁, hpd, ps, p₂, hps, v, p₃, hv, -, -, p₄, hv', p₅, hps', p₆, hpd', rfl⟩ := h
  simp only [Routine.plus_pool, Routine.withPool_pool] at hps hv hv' hps' hpd'
  obtain ⟨hregs, hfree⟩ := copyRegisters_of_allocate hpd hps hv
  refine ⟨.around hpd (.around hps (.around hv (.zero p₃) hv') hps') hpd',
    ins .mov [pd, dst] :: ins .mov [ps, src] :: copyCode pd ps v n, by simp, ?_⟩
  rintro image handlers a s ⟨hmov₁, hmov₂, hcode⟩ hs hone ⟨hin, hin'⟩
  obtain ⟨s₂, hrun₂, hpc₂, hpd₂, hps₂, hreg₂, hmemory₂, hint₂⟩ := reaches_copy_start handlers
    hmov₁ hmov₂ hs hone hregs.dst hregs.src hdst.lt hsrc.lt hregs.dst_src (hsrc.ne hpd)
  obtain ⟨t, hst, htpc, ht, htreg⟩ := reaches_copyCode handlers hregs hcode hpc₂ (hrun₂.one hone)
    (by rw [hpd₂, hmemory₂]; exact hin) (by rw [hps₂, hmemory₂]; exact hin')
  rw [hpd₂, hps₂] at ht
  refine ⟨t, hrun₂.trans hst, ?_, ht.congr hmemory₂ hint₂, fun q hq => ?_⟩
  · rw [htpc]
    simp only [Machine.totalSize_cons, Machine.size_instruction]
    congr 1
    omega
  · simp only [hfree, List.take_succ_cons, List.take_zero, List.mem_cons, not_or] at hq
    rw [htreg q hq.1 hq.2.1 hq.2.2.1, hreg₂ q hq.1 hq.2.1]

/-- Words copied in a loop with registers of its own, where `n` holds how many; it ends as zero. -/
theorem copyLoop_runs {n : Register} (hname : symbol r.name = r.name) (hdst : r.pool.Withholds dst)
    (hsrc : r.pool.Withholds src) (hn : r.pool.Withholds n) (hnone : n ≠ .one)
    (h : copyLoop dst src n r = .ok u r') :
    r.pool.Borrows r'.pool 4 ∧ ∃ code,
      r' = ((r.plus code).withPool r'.pool).withLabels r'.labels ∧
      ∀ image handlers, Runs image handlers code
        (fun s => s.reg n ≠ 0 ∧ Within (s.reg dst).toNat (s.reg n).toNat s.memory.size ∧
          Within (s.reg src).toNat (s.reg n).toNat s.memory.size)
        fun s t => Ascends (s.reg dst).toNat (s.reg src).toNat (s.reg n).toNat s t ∧ t.reg n = 0 ∧
          ∀ q, q ∉ r.pool.free.take 4 → q ≠ n → t.reg q = s.reg q := by
  simp only [copyLoop, allocate_front, newLabel_front, emit_front, loadAddress_front,
    placeLabel_front, release_front, release_ok] at h
  obtain ⟨pd, p₁, hpd, ps, p₂, hps, v, p₃, hv, target, p₄, ht, -, -, -, -, -, -, -, -, p₅, ht', p₆,
    hv', p₇, hps', p₈, hpd', rfl⟩ := h
  generalize hlabel : _ ++ "$" ++ "copy" ++ _ = label
  simp only [Routine.plus_pool, Routine.withPool_pool, Routine.withLabels_pool]
    at hps hv ht ht' hv' hps' hpd'
  obtain ⟨hregs, hfree⟩ := copyRegisters_of_allocate hpd hps hv
  rw [Pool.free_of_allocate ht] at hfree
  obtain ⟨htmem, htnew, -, -⟩ := Pool.allocate_eq_ok ht
  rw [(Pool.allocate_eq_ok hv).2.2.1, (Pool.allocate_eq_ok hps).2.2.1,
    (Pool.allocate_eq_ok hpd).2.2.1] at htnew
  simp only [List.mem_cons, not_or] at htnew
  have hn₁ := hn.allocate hpd
  have hn₂ := hn₁.allocate hps
  have hn₃ := hn₂.allocate hv
  have hloop : LoopRegisters pd ps v n target :=
    { hregs with
      count := ⟨hn.lt, hnone⟩
      back := Pool.writable_of_mem htmem
      count_dst := hn.ne hpd
      count_src := hn₁.ne hps
      count_value := hn₂.ne hv
      target_dst := htnew.2.2.1
      target_src := htnew.2.1
      target_value := htnew.1
      target_count := (hn₃.ne ht).symm }
  refine ⟨.around hpd (.around hps (.around hv (.around ht (.zero p₄) ht') hv') hps') hpd',
    ins .mov [pd, dst] :: ins .mov [ps, src] ::
      .constant target (.reference (symbol label)) :: .label label :: loopCode pd ps v n target,
    by simp [loopCode], ?_⟩
  rintro image handlers a s ⟨hmov₁, hmov₂, hconstant, hhere, hcode⟩ hs hone ⟨hnonzero, hin, hin'⟩
  obtain ⟨s₂, hrun₂, hpc₂, hpd₂, hps₂, hreg₂, hmemory₂, hint₂⟩ := reaches_copy_start handlers
    hmov₁ hmov₂ hs hone hregs.dst hregs.src hdst.lt hsrc.lt hregs.dst_src (hsrc.ne hpd)
  have hlabel' : symbol label = label := by
    rw [← hlabel]
    exact symbol_newLabel hname (by decide) _
  rw [hlabel'] at hconstant
  have hrun₃ := Machine.reaches_constant handlers hconstant (Machine.constantWord_reference hhere)
    hpc₂ hloop.back (hrun₂.one hone)
  have hone₃ := hrun₃.one (hrun₂.one hone)
  generalize hs₃ : s₂.assign target _ _ = s₃ at hrun₃ hone₃
  have hreg₃ (q : Register) (hq : q ≠ target) : s₃.reg q = s₂.reg q := by
    rw [← hs₃, State.reg_assign_of_ne _ _ _ _ _ hq]
  have hpd₃ : s₃.reg pd = s.reg dst := by rw [hreg₃ pd hloop.target_dst.symm, hpd₂]
  have hps₃ : s₃.reg ps = s.reg src := by rw [hreg₃ ps hloop.target_src.symm, hps₂]
  have hn₃ : s₃.reg n = s.reg n := by
    rw [hreg₃ n hloop.target_count.symm, hreg₂ n hloop.count_dst hloop.count_src]
  have hmemory₃ : s₃.memory = s.memory := by rw [← hs₃]; exact hmemory₂
  obtain ⟨k, hk⟩ : ∃ k, (s.reg n).toNat = k + 1 :=
    Nat.exists_eq_succ_of_ne_zero fun h => hnonzero (UInt32.toNat_inj.1 h)
  simp only [hk] at hin hin' ⊢
  obtain ⟨t, hst, htpc, ht, htn, htreg⟩ := reaches_loopCode handlers hloop hcode (by rw [← hs₃]; rfl)
    hone₃ (by rw [← hs₃, State.reg_assign_self _ _ _ _ hloop.back.lt]; rfl)
    (by rw [hn₃]; exact hk) (by rw [hpd₃, hmemory₃]; exact hin) (by rw [hps₃, hmemory₃]; exact hin')
  rw [hpd₃, hps₃] at ht
  refine ⟨t, hrun₂.trans (hrun₃.trans hst), htpc,
    ht.congr hmemory₃ (by rw [← hs₃]; exact hint₂), htn, fun q hq hqn => ?_⟩
  simp only [hfree, List.take_succ_cons, List.take_zero, List.mem_cons, not_or] at hq
  rw [htreg q hq.1 hq.2.1 hq.2.2.1 hqn, hreg₃ q hq.2.2.2.1, hreg₂ q hq.1 hq.2.1]

/-- How many registers a copy of some size works with. -/
def copyNeed (size : Int) : Nat :=
  if size ≤ 0 then 0 else if size = 1 then 1 else if size ≤ unrollLimit then 3 else 5

/-- A copy of any size takes and gives back its registers, and at run time copies the words. -/
theorem copy_ascends {size : Int} (hname : symbol r.name = r.name) (hdst : r.pool.Withholds dst)
    (hsrc : r.pool.Withholds src) (h : copy dst src size r = .ok u r') :
    r.pool.Borrows r'.pool (copyNeed size) ∧ ∃ code,
      r' = ((r.plus code).withPool r'.pool).withLabels r'.labels ∧ ∀ image handlers,
        CopyRuns image handlers code (r.pool.free.take (copyNeed size)) dst src size.toNat := by
  unfold copy at h
  unfold copyNeed
  by_cases hzero : size ≤ 0
  · simp only [hzero, ↓reduceIte, pure_ok] at h ⊢
    obtain ⟨-, rfl⟩ := h
    rw [Int.toNat_of_nonpos hzero]
    exact ⟨.zero _, [], by simp, fun _ _ _ s _ hs _ _ => ⟨s, .refl s, hs, .refl s, fun _ _ => rfl⟩⟩
  by_cases hone : size = 1
  · simp only [hone, ↓reduceIte, allocate_front, emit_front, release_ok,
      show ¬ (1 : Int) ≤ 0 by decide] at h ⊢
    obtain ⟨v, p, hv, -, -, p', hv', rfl⟩ := h
    simp only [Routine.plus_pool, Routine.withPool_pool] at hv'
    refine ⟨.around hv (.zero p) hv', [ins .load [v, src], ins .store [dst, v]], ?_, ?_⟩
    · rw [Routine.withPool_plus, Routine.withPool_plus, Routine.plus_plus]
      rfl
    rintro image handlers a s ⟨hload, hstore, -⟩ hs hone' ⟨hin, hin'⟩
    obtain ⟨t, hst, htpc, ht, htreg⟩ := reaches_copy_word handlers hload hstore hs hone'
      (Pool.writable_of_mem (Pool.allocate_eq_ok hv).1) hdst.lt hsrc.lt (hdst.ne hv)
      (hin 0 Nat.one_pos).1 (hin' 0 Nat.one_pos).1
    refine ⟨t, hst, htpc, ht, fun q hq => htreg q ?_⟩
    simpa [Pool.free_of_allocate hv] using hq
  by_cases hfew : size ≤ unrollLimit
  · simp only [hzero, hone, hfew, ↓reduceIte] at h ⊢
    obtain ⟨hborrows, code, hr, hruns⟩ := copyUnrolled_runs hdst hsrc h
    exact ⟨hborrows, code, by rw [hr]; rfl, hruns⟩
  · simp only [hzero, hone, hfew, ↓reduceIte, allocate_front, loadCount_front] at h ⊢
    obtain ⟨n, p, hn, -, hhigh, h⟩ := h
    simp only [bind_ok, release_ok] at h
    obtain ⟨_, r₁, hloop, p', hn', rfl⟩ := h
    have hmem := (Pool.allocate_eq_ok hn).1
    have hwritable := Pool.writable_of_mem hmem
    have hnout : n ∉ p.free := fun h => (Pool.mem_free.1 h).2
      ((Pool.allocate_eq_ok hn).2.2.1 ▸ List.mem_cons_self)
    obtain ⟨hborrows, code, hr, hruns⟩ := copyLoop_runs (r := (r.withPool p).plus _)
      hname (hdst.allocate hn) (hsrc.allocate hn) ⟨hwritable.lt, hnout⟩ hwritable.ne_one hloop
    refine ⟨.around hn hborrows hn', .constant n (.immediate (UInt32.ofNat size.toNat)) :: code, ?_, ?_⟩
    · rw [hr]
      simp
    rintro image handlers a s ⟨hconstant, hcode⟩ hs hone' hin
    have hrun₁ := Machine.reaches_constant handlers hconstant rfl hs hwritable hone'
    have hreg₁ (q : Register) (hq : q ≠ n) := State.reg_assign_of_ne s n q
      (UInt32.ofNat size.toNat) (UInt32.ofNat (a + 2)) hq
    have hcount : (UInt32.ofNat size.toNat).toNat = size.toNat :=
      UInt32.toNat_ofNat_of_lt' (by rw [UInt32.size]; omega)
    have hnonzero : UInt32.ofNat size.toNat ≠ 0 := fun h => by
      rw [h, UInt32.toNat_zero] at hcount
      omega
    obtain ⟨t, hst, htpc, ht, -, htreg⟩ := hruns image handlers (a + 2) _ hcode rfl (hrun₁.one hone') (by
      simp only [hreg₁ dst (hdst.ne hn), hreg₁ src (hsrc.ne hn),
        State.reg_assign_self _ _ _ _ hwritable.lt, hcount]
      exact ⟨hnonzero, hin⟩)
    rw [hreg₁ dst (hdst.ne hn), hreg₁ src (hsrc.ne hn), State.reg_assign_self _ _ _ _ hwritable.lt,
      hcount] at ht
    refine ⟨t, hrun₁.trans hst, ?_, ht.congr rfl rfl, fun q hq => ?_⟩
    · rw [htpc, Machine.totalSize_cons, Machine.size_constant, Nat.add_assoc]
    · rw [Pool.free_of_allocate hn, List.take_succ_cons, List.mem_cons, not_or] at hq
      rw [htreg q hq.2 hq.1, hreg₁ q hq.1]

/-- Between blocks that have no word in common a copy of any size is a plain one. -/
theorem copy_runs (image : Image) (handlers : Handlers) {size : Int} (hvalid : r.pool.Valid) (hname : symbol r.name = r.name)
    (hdst : dst ∈ r.pool.live) (hsrc : src ∈ r.pool.live) (h : copy dst src size r = .ok u r') :
    r.pool.Kept r'.pool ∧ ∃ code, r' = ((r.plus code).withPool r'.pool).withLabels r'.labels ∧
      Runs image handlers code
        (fun s => Apart (s.reg dst).toNat (s.reg src).toNat size.toNat s.memory.size ∧
          s.memory.size ≤ 4294967296)
        fun s t => Copied (s.reg dst).toNat (s.reg src).toNat size.toNat s t ∧
          ∀ q, Untouched r.pool r'.pool q → t.reg q = s.reg q := by
  obtain ⟨hborrows, code, hr, hruns⟩ := copy_ascends hname (hvalid.withholds hdst)
    (hvalid.withholds hsrc) h
  refine ⟨hborrows.kept, code, hr, fun a s hp hs hone ⟨⟨happart, hle, hle'⟩, hsize⟩ => ?_⟩
  obtain ⟨t, hst, htpc, ht, htreg⟩ := hruns image handlers a s hp hs hone
    ⟨fun i hi => by omega, fun i hi => by omega⟩
  exact ⟨t, hst, htpc, ht.copied happart, fun q hq => htreg q (hborrows.notMem hq)⟩

end Sizes

end Qll.Codegen
