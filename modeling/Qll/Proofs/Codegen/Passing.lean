import Qll.Codegen.Call
import Qll.Proofs.Codegen.Addressing
import Qll.Proofs.Machine.Placement

/-!
# Passing words to a routine

Before it jumps, a call pushes the caller-save registers in use, the address for a result that fits
no register and the arguments. The words it pushes all lie below the stack pointer of its start, so
neither they nor the code of the arguments touch the caller's objects. The depth counts what was
pushed, so addresses in the frame are right at every point in between, also in a call that is part of
an argument.
-/

namespace Qll.Codegen

open Assembly (Directive Value totalSize)
open Machine (Register Opcode Word Image Handlers State Placed Reaches ins pushCode popCode
  addExtent wrap)
open Qll.Computation

/-! ## Depth -/

/-- Counts are added one after the other. -/
theorem addExtent_addExtent (d a b : Int) :
    addExtent (addExtent d a) b = addExtent d (a + b) := by
  simp only [addExtent, wrap, Int.bmod_add_bmod, Int.add_assoc]

/-- A count that is in range is not changed by adding nothing. -/
theorem addExtent_zero {d : Int} (h : wrap d = d) : addExtent d 0 = d := by
  rw [addExtent, Int.add_zero, h]

/-- Small counts are added as they are. -/
theorem addExtent_eq_add {d n : Int} (hlow : 0 ≤ d + n) (hhigh : d + n < 9223372036854775808) :
    addExtent d n = d + n :=
  Machine.wrap_of_bounds (by omega) hhigh

/-- A sum of counts is in range. -/
theorem wrap_addExtent (d n : Int) : wrap (addExtent d n) = addExtent d n := by
  simp [addExtent, wrap]

section Building

variable {r r' : Routine} {u : Unit}

/-- Pushing registers one after the other. -/
theorem pushes_ok {rs : List Register} (hdepth : wrap r.depth = r.depth) :
    (forM rs push : Gen PUnit) r = .ok u r' ↔
      (r.plus (rs.flatMap pushCode)).withDepth (addExtent r.depth rs.length) = r' := by
  induction rs generalizing r with
  | nil => simp [addExtent_zero hdepth]
  | cons q rs ih =>
    have hnext : wrap ((r.plus (pushCode q)).withDepth (addExtent r.depth 1)).depth =
        ((r.plus (pushCode q)).withDepth (addExtent r.depth 1)).depth := wrap_addExtent _ _
    rw [List.forM_cons, push_front, ih hnext]
    simp [addExtent_addExtent, Int.add_comm]

/-- Popping registers one after the other. -/
theorem pops_ok {rs : List Register} (hdepth : wrap r.depth = r.depth) :
    (forM rs pop : Gen PUnit) r = .ok u r' ↔
      (r.plus (rs.flatMap popCode)).withDepth (addExtent r.depth (-rs.length)) = r' := by
  induction rs generalizing r with
  | nil => simp [addExtent_zero hdepth]
  | cons q rs ih =>
    have hnext : wrap ((r.plus (popCode q)).withDepth (addExtent r.depth (-1))).depth =
        ((r.plus (popCode q)).withDepth (addExtent r.depth (-1))).depth := wrap_addExtent _ _
    rw [List.forM_cons, front_total (fun _ _ => pop_ok), ih hnext]
    simp [addExtent_addExtent, Int.add_comm]

end Building

/-! ## Arguments -/

/-- A routine in which code can be generated: its depth is one that can be counted, and its name is that
of a label. -/
structure Ready (r : Routine) : Prop where
  valid : r.pool.Valid
  depth : wrap r.depth = r.depth
  name : symbol r.name = r.name

/-- What the generation of an expression leaves of a routine: more code, and one register more in
use. -/
structure Balanced (r r' : Routine) (q : Register) : Prop where
  code : ∃ code, r'.code.toList = r.code.toList ++ code
  name : r'.name = r.name
  depth : r'.depth = r.depth
  frame : SameKind r.frame r'.frame
  live : r'.pool.live.Perm (q :: r.pool.live)
  valid : r'.pool.Valid

/-- What the generation of code that pushes words leaves of a routine: the code, and a depth that counts
the words. -/
structure Prepares (r r' : Routine) (n : Nat) (code : List Directive) : Prop where
  code : r'.code.toList = r.code.toList ++ code
  name : r'.name = r.name
  depth : r'.depth = addExtent r.depth n
  frame : SameKind r.frame r'.frame
  live : r'.pool.live.Perm r.pool.live
  valid : r'.pool.Valid

section Leaving

variable {r r₁ r' : Routine} {q : Register} {m n : Nat} {code more : List Directive}

/-- Nothing is pushed. -/
theorem Prepares.refl (hr : Ready r) : Prepares r r 0 [] :=
  ⟨by simp, rfl, (addExtent_zero hr.depth).symm, .refl _, .refl _, hr.valid⟩

/-- Words are pushed after other words. -/
theorem Prepares.trans (h : Prepares r r₁ m code) (h' : Prepares r₁ r' n more) :
    Prepares r r' (m + n) (code ++ more) where
  code := by rw [h'.code, h.code, List.append_assoc]
  name := h'.name.trans h.name
  depth := by
    rw [h'.depth, h.depth, addExtent_addExtent]
    rfl
  frame := h.frame.trans h'.frame
  live := h'.live.trans h.live
  valid := h'.valid

/-- Code can be generated behind pushed words. -/
theorem Prepares.ready (h : Prepares r r' n code) (hr : Ready r) : Ready r' :=
  ⟨h.valid, by rw [h.depth]; exact wrap_addExtent _ _, by rw [h.name]; exact hr.name⟩

/-- A depth within memory counts the words that were pushed. -/
theorem Prepares.depth_eq (h : Prepares r r' n code) (hlow : 0 ≤ r.depth)
    (hhigh : r.depth + n < 9223372036854775808) : r'.depth = r.depth + n := by
  rw [h.depth]
  exact addExtent_eq_add (by omega) hhigh

end Leaving

namespace Argument

/-- The words an argument takes on the stack. -/
def words (arg : Argument) : Nat := if arg.integral then 1 else arg.size.toNat

/-- The words that an argument delivers once its own code has left its value, or the address of its
object, in a register. -/
def delivers (arg : Argument) (q : Register) (s : State) (k : Nat) : Word :=
  if arg.integral then s.reg q else s.word ((s.reg q).toNat + k)

/-- The generation of an argument keeps the balance of an expression. -/
def IsBalanced (arg : Argument) : Prop :=
  ∀ r q r', Ready r → arg.compile r = .ok q r' → Balanced r r' q

end Argument

/-- What was pushed, as the machine sees it: the stack pointer moved, and the registers in use and
the words between the stack pointer and `top` are as they were. -/
structure Pushes (n : Nat) (live : List Register) (top : Nat) (s t : State) : Prop where
  stack : t.stack + n = s.stack
  reg : ∀ q ∈ live, t.reg q = s.reg q
  kept : ∀ x, s.stack ≤ x → x ≤ top → t.word x = s.word x

/-- Nothing is pushed. -/
theorem Pushes.refl (live : List Register) (top : Nat) (s : State) : Pushes 0 live top s s :=
  ⟨rfl, fun _ _ => rfl, fun _ _ _ => rfl⟩

/-- Words are pushed after other words. -/
theorem Pushes.trans {m n top : Nat} {live : List Register} {s t u : State}
    (h : Pushes m live top s t) (h' : Pushes n live top t u) : Pushes (m + n) live top s u where
  stack := by
    have h₁ := h.stack
    have h₂ := h'.stack
    omega
  reg q hq := (h'.reg q hq).trans (h.reg q hq)
  kept x hx htop := by
    have h₁ := h.stack
    rw [h'.kept x (by omega) htop, h.kept x hx htop]

/-- Registers are in use in any order. -/
theorem Pushes.perm {n top : Nat} {live live' : List Register} {s t : State} (h : Pushes n live top s t)
    (hperm : live'.Perm live) : Pushes n live' top s t :=
  ⟨h.stack, fun q hq => h.reg q (hperm.subset hq), h.kept⟩

/-! ## What holds of an argument -/

section Passing

variable (image : Image) (handlers : Handlers) {r r' : Routine} {arg : Argument}

/-- Making room for a block and copying an object into it. -/
theorem passObject_runs {q d : Register} {size : Int} {p₁ p₂ : Pool} {r₁ r₂ r₃ : Routine} {u : Unit}
    (hvalid : r.pool.Valid) (hname : symbol r.name = r.name) (hq : q ∈ r.pool.live)
    (hreserve : reserve size r = .ok u r₁) (hd : r₁.pool.allocate = .ok (d, p₁))
    (hcopy : copy d q size ((r₁.withPool p₁).plus [ins .mov [d, .sp]]) = .ok u r₂)
    (hd' : r₂.pool.release d = .ok p₂) (hr₃ : r₂.withPool p₂ = r₃) :
    0 ≤ size ∧ r.pool.Kept r₃.pool ∧ r₃.depth = addExtent r.depth size ∧ r₃.frame = r.frame ∧
      r₃.name = r.name ∧ ∃ code, r₃.code.toList = r.code.toList ++ code ∧
      Runs image handlers code
        (fun s => size.toNat ≤ s.stack ∧
          Apart (s.stack - size.toNat) (s.reg q).toNat size.toNat s.memory.size ∧
          s.memory.size ≤ 4294967296)
        fun s t => t.stack + size.toNat = s.stack ∧ (∀ x ∈ r.pool.live, t.reg x = s.reg x) ∧
          Copied t.stack (s.reg q).toNat size.toNat s t := by
  simp only [reserve, bind_ok, moveDepth_ok] at hreserve
  obtain ⟨_, r₀, hadjust, rfl⟩ := hreserve
  obtain ⟨hlow, hhigh, hkept, -⟩ := adjust_ok hadjust
  obtain ⟨front, hr₀, hruns⟩ := adjust_runs image handlers (g := fun a b => a - b)
    (fun _ _ _ => rfl) (fun _ => UInt32.sub_zero _) Register.writable_sp (.inr rfl) hadjust
  rw [Routine.withDepth_pool] at hd
  have htakes := Pool.Takes.of_allocate hd
  have hqlive : q ∈ r₀.pool.live := by
    rw [hkept.live]
    exact hq
  obtain ⟨hkept', back, hr₂, hcopies⟩ := copy_runs image handlers
    (r := ((r₀.withDepth (addExtent r₀.depth size)).withPool p₁).plus [ins .mov [d, .sp]])
    (htakes.valid (hkept.valid hvalid)) (by rw [hr₀]; exact hname) htakes.mem_live
    (htakes.live_subset q hqlive) hcopy
  have haround : r.pool.Kept p₂ := hkept.trans (.around hd hkept' hd')
  have hdepth : r₀.depth = r.depth := by rw [hr₀]; rfl
  subst hr₃
  refine ⟨hlow, haround, ?_, ?_, ?_, front ++ ins .mov [d, .sp] :: back, ?_, ?_⟩
  · rw [hr₂, ← hdepth]
    rfl
  · rw [hr₂, hr₀]
    simp
  · rw [hr₂, hr₀]
    simp
  · rw [hr₂, hr₀]
    simp
  · rintro a s hp hs hone ⟨hroom, happart, hsize⟩
    obtain ⟨hfront, hmov, hback⟩ := Machine.placed_append.1 hp
    obtain ⟨s₁, hrun₁, hpc₁, hsp₁, hreg₁, hmemory₁, hint₁⟩ := hruns a s hfront hs hone trivial
    have hone₁ := hrun₁.one hone
    have hwritable := htakes.writable
    have hrun₂ := Machine.reaches_mov handlers hmov hpc₁ hwritable (by decide) hone₁
    have hone₂ := hrun₂.one hone₁
    have hn : (UInt32.ofNat size.toNat).toNat = size.toNat :=
      UInt32.toNat_ofNat_of_lt' (by rw [UInt32.size]; omega)
    have hstack₁ : s₁.stack = s.stack - size.toNat := by
      have hle : UInt32.ofNat size.toNat ≤ s.reg .sp := by
        rw [UInt32.le_iff_toNat_le, hn]
        exact hroom
      rw [State.stack, hsp₁, UInt32.toNat_sub_of_le _ _ hle, hn]
      rfl
    rw [← hstack₁] at happart
    have hqd : q ≠ d := fun h => htakes.new (h ▸ hqlive)
    have hqsp : q ≠ .sp := Pool.ne_sp_of_mem (hvalid.allocatable hq)
    have hq₂ := State.reg_assign_of_ne s₁ d q (s₁.reg .sp)
      (UInt32.ofNat (a + totalSize front + 1)) hqd
    rw [hreg₁ q (.inl hq) hqsp] at hq₂
    have hd₂ := State.reg_assign_self s₁ d (s₁.reg .sp)
      (UInt32.ofNat (a + totalSize front + 1)) hwritable.lt
    obtain ⟨t, hst, htpc, ht, htreg⟩ := hcopies _ _ hback rfl hone₂ ⟨by
      rw [hq₂, hd₂, State.assign_memory, hmemory₁]
      exact happart, by rw [State.assign_memory, hmemory₁]; exact hsize⟩
    rw [hq₂, hd₂] at ht
    have hvalid₃ := hkept'.valid (htakes.valid (hkept.valid hvalid))
    have hstack : t.stack = s₁.stack := by
      rw [State.stack, htreg .sp (.sp hvalid₃), State.reg_assign_of_ne _ _ _ _ _
        (Pool.ne_sp_of_mem htakes.mem).symm]
      rfl
    refine ⟨t, hrun₁.trans (hrun₂.trans hst), ?_, by omega, fun x hx => ?_, ?_⟩
    · rw [htpc, Machine.totalSize_append, Machine.totalSize_cons, Machine.size_instruction,
        ← Nat.add_assoc, ← Nat.add_assoc]
    · have hx₀ : x ∈ r₀.pool.live := hkept.live ▸ hx
      have hxd : x ≠ d := fun h => htakes.new (h ▸ hx₀)
      rw [htreg x (.inl (htakes.live_subset x hx₀)), State.reg_assign_of_ne _ _ _ _ _ hxd,
        hreg₁ x (.inl hx) (Pool.ne_sp_of_mem (hvalid.allocatable hx))]
    · rw [hstack]
      exact ht.congr hmemory₁ hint₁

/-- What passing an argument leaves of a routine, and the run of the code behind that of the
argument's own. -/
theorem passArgument_runs {n : Int} (hr : Ready r) (hbalanced : arg.IsBalanced)
    (h : passArgument arg r = .ok n r') :
    ∃ q r₁ own rest, arg.compile r = .ok q r₁ ∧ r₁.code.toList = r.code.toList ++ own ∧ n = arg.words ∧
      Prepares r r' arg.words (own ++ rest) ∧
      Runs image handlers rest
        (fun s => arg.words ≤ s.stack ∧ s.stack ≤ s.memory.size ∧ s.memory.size ≤ 4294967296 ∧
          (arg.integral = false →
            Apart (s.stack - arg.words) (s.reg q).toNat arg.words s.memory.size))
        fun s t => (∀ top, Pushes arg.words r.pool.live top s t) ∧
          ∀ k < arg.words, t.word (t.stack + k) = arg.delivers q s k := by
  unfold passArgument at h
  rw [bind_ok] at h
  obtain ⟨q, r₁, hcompile, h⟩ := h
  have hvalid := hr.valid
  obtain ⟨⟨own, hown⟩, hname₁, hdepth₁, hkind, hlive₁, hvalid₁⟩ := hbalanced r q r₁ hr hcompile
  refine ⟨q, r₁, own, ?_⟩
  have hq : q ∈ r₁.pool.live := hlive₁.symm.subset List.mem_cons_self
  have hsub (x : Register) (hx : x ∈ r.pool.live) : x ∈ r₁.pool.live :=
    hlive₁.symm.subset (List.mem_cons_of_mem q hx)
  have hperm : (r₁.pool.live.erase q).Perm r.pool.live := by
    simpa using hlive₁.erase q
  cases hintegral : arg.integral with
  | true =>
    have hwords : arg.words = 1 := by simp [Argument.words, hintegral]
    simp only [hintegral, ↓reduceIte, push_front, release_front, pure_ok] at h
    obtain ⟨p, hp, rfl, rfl⟩ := h
    simp only [Routine.withDepth_pool, Routine.plus_pool] at hp
    have hvalid₂ := hvalid₁.release hp
    obtain ⟨-, rfl⟩ := Pool.release_eq_ok hp
    refine ⟨pushCode q, hcompile, hown, by simp [hwords], ⟨by simp [hown], hname₁, by simp [hdepth₁, hwords],
      hkind, hperm, hvalid₂⟩, ?_⟩
    rintro a s hp hs hone ⟨hroom, hhigh, -, -⟩
    have hmem := hvalid₁.allocatable hq
    obtain ⟨t, hst, htpc, ht⟩ := Machine.reaches_push handlers hp hs
      (Pool.writable_of_mem hmem).lt (Pool.ne_sp_of_mem hmem) (by omega) hhigh hone
    refine ⟨t, hst, htpc, fun top => ⟨by rw [hwords]; exact ht.stack, fun x hx => ?_, ?_⟩,
      fun k hk => ?_⟩
    · exact ht.reg x (Pool.ne_sp_of_mem (hvalid.allocatable hx))
    · exact fun x hx _ => ht.above x hx
    · have hstack := ht.stack
      rw [List.length_singleton] at hstack
      rw [show t.stack + k = s.stack - 1 - 0 by omega, ht.pushed 0 _ rfl, Argument.delivers,
        if_pos hintegral]
  | false =>
    have hwords : arg.words = arg.size.toNat := by simp [Argument.words, hintegral]
    simp only [hintegral, Bool.false_eq_true, ↓reduceIte] at h
    rw [bind_ok] at h
    obtain ⟨_, r₂, hreserve, h⟩ := h
    simp only [allocate_front, emit_front] at h
    obtain ⟨d, p₁, hd, -, h⟩ := h
    rw [bind_ok] at h
    obtain ⟨_, r₃, hcopy, h⟩ := h
    simp only [release_front, pure_ok] at h
    obtain ⟨p₂, hd', p, hp, rfl, rfl⟩ := h
    obtain ⟨hlow, hkept, hdepth, hframe, hname₃, rest, hcode, hruns⟩ := passObject_runs image handlers
      hvalid₁ (hname₁ ▸ hr.name) hq hreserve hd hcopy hd' rfl
    have hvalid₂ := (hkept.valid hvalid₁).release hp
    obtain ⟨-, rfl⟩ := Pool.release_eq_ok hp
    refine ⟨rest, hcompile, hown, ?_, ⟨?_, hname₃.trans hname₁, ?_, ?_, ?_, hvalid₂⟩, ?_⟩
    · rw [hwords]
      omega
    · rw [Routine.withPool_code, hcode, hown, List.append_assoc]
    · rw [← hdepth₁, hwords, Int.toNat_of_nonneg hlow]
      exact hdepth
    · rw [Routine.withPool_frame, hframe]
      exact hkind
    · have hlive₂ : p₂.live = r₁.pool.live := hkept.live
      change (p₂.live.erase q).Perm r.pool.live
      rw [hlive₂]
      exact hperm
    · rintro a s hplaced hs hone ⟨hroom, hhigh, hsize, happart⟩
      rw [hwords] at hroom happart
      obtain ⟨t, hst, htpc, htstack, htreg, ht⟩ :=
        hruns a s hplaced hs hone ⟨hroom, happart rfl, hsize⟩
      refine ⟨t, hst, htpc, fun top => ⟨by rw [hwords]; exact htstack, fun x hx => ?_, ?_⟩,
        fun k hk => ?_⟩
      · exact htreg x (hsub x hx)
      · exact fun x hx _ => ht.other x (.inr (by omega))
      · rw [ht.word k (by omega), Argument.delivers, if_neg (by simp [hintegral])]

/-- A block of memory that has no word between `low` and `high`. -/
def Outside (low high a n : Nat) : Prop := high ≤ a ∨ a + n ≤ low

/-- What the code of an argument is relied on for, where it is generated in the routine `r`. It may run
in a call that started in the state `s₀` at a depth, behind what the call has pushed by then; the words
that the call pushes in all lie between `low` and the stack pointer of its start, so the stack has room
for the words that the argument is to take. Whenever the code runs, it ends with the stack pointer, the
registers in use and the words that were pushed as they were. An object to be passed by value lies in
memory outside of the words that the call pushes. -/
def Argument.EvaluatesAt (arg : Argument) (s₀ : State) (depth : Int) (low : Nat) (r : Routine) : Prop :=
  ∀ q r' code a s, arg.compile r = .ok q r' → r'.code.toList = r.code.toList ++ code →
    Placed image a code → Reaches image handlers s₀ s → s.pc = UInt32.ofNat a → depth ≤ r.depth →
    Pushes (r.depth - depth).toNat r.pool.live (s₀.stack + depth.toNat) s₀ s →
    low + arg.words ≤ s.stack →
    ∃ t, Reaches image handlers s t ∧ t.pc = UInt32.ofNat (a + totalSize code) ∧
      Pushes 0 r.pool.live (s₀.stack + depth.toNat) s t ∧
      (arg.integral = false → (t.reg q).toNat + arg.words ≤ t.memory.size ∧
        Outside low s₀.stack (t.reg q).toNat arg.words)

/-- The code of an argument can be relied on wherever it is generated. -/
def Argument.Evaluates (arg : Argument) (s₀ : State) (depth : Int) (low : Nat) : Prop :=
  ∀ r, Ready r → arg.EvaluatesAt image handlers s₀ depth low r

/-- The code of arguments can be relied on where it is generated, that of each one behind the code that
passes those in front of it. -/
def EvaluatesFrom (s₀ : State) (depth : Int) (low : Nat) : List Argument → Routine → Prop
  | [], _ => True
  | arg :: args, r => arg.EvaluatesAt image handlers s₀ depth low r ∧
    ∀ n r', passArgument arg r = .ok n r' → EvaluatesFrom s₀ depth low args r'

/-- Arguments whose code can be relied on anywhere. -/
theorem evaluatesFrom_of_forall {s₀ : State} {depth : Int} {low : Nat} {args : List Argument} (hr : Ready r)
    (hbalanced : ∀ arg ∈ args, arg.IsBalanced)
    (h : ∀ arg ∈ args, arg.Evaluates image handlers s₀ depth low) :
    EvaluatesFrom image handlers s₀ depth low args r := by
  induction args generalizing r with
  | nil => trivial
  | cons arg args ih =>
    refine ⟨h arg List.mem_cons_self r hr, fun n r' hpass => ?_⟩
    obtain ⟨_, _, _, _, -, -, -, hprepares, -⟩ :=
      passArgument_runs image handlers hr (hbalanced arg List.mem_cons_self) hpass
    exact ih (hprepares.ready hr) (fun x hx => hbalanced x (List.mem_cons_of_mem arg hx))
      fun x hx => h x (List.mem_cons_of_mem arg hx)

/-- A run from `s₀` comes to the end of the code of an argument, which leaves its value, or the
address of its object, in the register `q`. -/
def Argument.EndsIn (arg : Argument) (s₀ : State) (q : Register) (u : State) : Prop :=
  Reaches image handlers s₀ u ∧ ∃ r r' code a, arg.compile r = .ok q r' ∧
    r'.code.toList = r.code.toList ++ code ∧ Placed image a code ∧
    u.pc = UInt32.ofNat (a + totalSize code)

/-- The words that arguments take on the stack. -/
def argumentWords (args : List Argument) : Nat := Number.total Argument.words args

/-- The words of each argument stand on the stack, those of the last one on top. -/
def Delivered (args : List Argument) (s₀ t : State) : Prop :=
  ∀ i arg, args[i]? = some arg → ∃ q u, arg.EndsIn image handlers s₀ q u ∧
    ∀ k < arg.words, t.word (t.stack + argumentWords (args.drop (i + 1)) + k) = arg.delivers q u k

/-- Arguments are passed one after the other. -/
theorem passArguments_runs {args : List Argument} {w w' : Int} (hr : Ready r)
    (hbalanced : ∀ arg ∈ args, arg.IsBalanced) (hw : wrap w = w)
    (h : passArguments args w r = .ok w' r') :
    w' = addExtent w (argumentWords args) ∧ ∃ code, Prepares r r' (argumentWords args) code ∧
      ∀ (s₀ s : State) (depth : Int) (low a : Nat),
        EvaluatesFrom image handlers s₀ depth low args r → Placed image a code →
        Reaches image handlers s₀ s → s.pc = UInt32.ofNat a → s.reg .one = 1 → depth ≤ r.depth →
        Pushes (r.depth - depth).toNat r.pool.live (s₀.stack + depth.toNat) s₀ s →
        low + argumentWords args ≤ s.stack → s.stack ≤ s.memory.size →
        s.memory.size ≤ 4294967296 → 0 ≤ depth → depth < 1099511627776 →
        ∃ t, Reaches image handlers s t ∧ t.pc = UInt32.ofNat (a + totalSize code) ∧
          Pushes (argumentWords args) r.pool.live (s₀.stack + depth.toNat) s t ∧
          Delivered image handlers args s₀ t := by
  induction args generalizing r w with
  | nil =>
    simp only [passArguments, pure_ok] at h
    obtain ⟨rfl, rfl⟩ := h
    refine ⟨(addExtent_zero hw).symm, [], .refl hr, fun _ s _ _ _ _ _ _ hs _ _ _ _ _ _ _ _ => ?_⟩
    exact ⟨s, .refl s, hs, .refl _ _ s, by simp [Delivered]⟩
  | cons arg args ih =>
    unfold passArguments at h
    rw [bind_ok] at h
    obtain ⟨n, r₁, harg, hrest⟩ := h
    obtain ⟨q, rc, own, pass, hcompile, hown, rfl, hpass, hruns⟩ :=
      passArgument_runs image handlers hr (hbalanced arg List.mem_cons_self) harg
    obtain ⟨hw', code, hcode, hall⟩ := ih (hpass.ready hr)
      (fun x hx => hbalanced x (List.mem_cons_of_mem arg hx)) (wrap_addExtent _ _) hrest
    have htotal : argumentWords (arg :: args) = arg.words + argumentWords args := rfl
    rw [htotal]
    refine ⟨?_, own ++ (pass ++ code), ?_, ?_⟩
    · rw [hw', addExtent_addExtent, Int.natCast_add]
    · rw [← List.append_assoc]
      exact hpass.trans hcode
    intro s₀ s depth low a heval hp hs₀ hs hone hle hpushed hroom hhigh hsize hnonneg hbound
    simp only [Machine.placed_append] at hp
    obtain ⟨hpown, hppass, hprest⟩ := hp
    obtain ⟨t₁, hrun₁, hpc₁, ht₁, hobject⟩ :=
      heval.1 q rc own a s hcompile hown hpown hs₀ hs hle hpushed (by omega)
    have hstack := hpushed.stack
    have hstack₁ := ht₁.stack
    have hsize₁ := hrun₁.size
    have happart (hvalue : arg.integral = false) :
        Apart (t₁.stack - arg.words) (t₁.reg q).toNat arg.words t₁.memory.size := by
      obtain ⟨hin, hout⟩ := hobject hvalue
      refine ⟨?_, by omega, hin⟩
      rcases hout with hout | hout
      · exact .inl (by omega)
      · exact .inr (by omega)
    obtain ⟨t₂, hrun₂, hpc₂, ht₂, hwords₂⟩ := hruns _ t₁ hppass hpc₁ (hrun₁.one hone)
      ⟨by omega, by omega, by omega, happart⟩
    have ht₂ := ht₂ (s₀.stack + depth.toNat)
    have hstack₂ := ht₂.stack
    have hsize₂ := hrun₂.size
    have hbound₀ : s₀.stack < 4294967296 := (s₀.reg .sp).toNat_lt
    have hexact : r₁.depth = r.depth + arg.words := hpass.depth_eq (by omega) (by omega)
    have hpushed₂ := ((hpushed.trans ht₁).trans ht₂).perm hpass.live
    rw [show (r.depth - depth).toNat + 0 + arg.words = (r₁.depth - depth).toNat by omega] at hpushed₂
    obtain ⟨t, hrun₃, hpc₃, ht₃, hdelivered⟩ := hall s₀ t₂ depth low _ (heval.2 _ r₁ harg) hprest
      (hs₀.trans (hrun₁.trans hrun₂)) hpc₂ (hrun₂.one (hrun₁.one hone)) (by omega) hpushed₂ (by omega)
      (by omega) (by omega) hnonneg hbound
    have hstack₃ := ht₃.stack
    refine ⟨t, hrun₁.trans (hrun₂.trans hrun₃), ?_, ?_, fun i x hx => ?_⟩
    · rw [hpc₃, Machine.totalSize_append, Machine.totalSize_append]
      simp only [Nat.add_assoc]
    · simpa using ht₁.trans (ht₂.trans (ht₃.perm hpass.live.symm))
    · cases i with
      | zero =>
        -- What is passed behind the first argument leaves its words alone.
        obtain rfl : arg = x := by simpa using hx
        refine ⟨q, t₁, ⟨hs₀.trans hrun₁, r, rc, own, a, hcompile, hown, hpown, hpc₁⟩, fun k hk => ?_⟩
        rw [List.drop_succ_cons, List.drop_zero, hstack₃, ht₃.kept _ (by omega) (by omega),
          hwords₂ k hk]
      | succ i => exact hdelivered i x (by simpa using hx)

end Passing

/-! ## The slot of a result -/

section ResultSlot

variable (image : Image) (handlers : Handlers) {r r' : Routine} {slot : Slot} {size : Int}

/-- A temporary changes the frame alone, and depends on it alone. -/
theorem temporary_ok (h : temporary size r = .ok slot r') :
    (∃ frame, SameKind r.frame frame ∧ r' = r.withFrame frame) ∧
      ∀ r₂ : Routine, r₂.frame = r.frame → ∃ r₃, temporary size r₂ = .ok slot r₃ := by
  unfold temporary at h ⊢
  rw [get_bind_ok] at h
  cases hframe : r.frame with
  | stack f =>
    simp only [hframe, bind_ok, set_ok, pure_ok] at h
    obtain ⟨-, _, rfl, rfl, rfl⟩ := h
    exact ⟨⟨.stack _, trivial, rfl⟩, fun r₂ hr₂ => ⟨_, by rw [get_bind_ok, hr₂]; rfl⟩⟩
  | block label taken =>
    simp only [hframe, bind_ok, set_ok, pure_ok] at h
    obtain ⟨-, _, rfl, rfl, rfl⟩ := h
    exact ⟨⟨.block _ _, rfl, rfl⟩, fun r₂ hr₂ => ⟨_, by rw [get_bind_ok, hr₂]; rfl⟩⟩
  | bare =>
    simp only [hframe] at h
    exact absurd h throw_ok

/-- The address of a slot depends on the kind of the frame and on the word of the frame pointer. -/
theorem slotWord_congr {s s' : State} (hkind : SameKind r.frame r'.frame)
    (hword : s'.word (frameSlot r' s') = s.word (frameSlot r s)) :
    slotWord image r' slot s' = slotWord image r slot s := by
  unfold slotWord
  cases hr : r.frame <;> cases hr' : r'.frame <;> simp_all [SameKind]

/-- Passing the address of a result pushes the address of a new temporary. -/
theorem passResultSlot_runs (hr : Ready r) (h : passResultSlot size r = .ok slot r') :
    (∃ r₁, temporary size r = .ok slot r₁) ∧ ∃ code, Prepares r r' 1 code ∧
      Runs image handlers code
        (fun s => ((∃ f, r.frame = .stack f) → frameSlot r s < s.memory.size) ∧
          s.memory.size ≤ 4294967296 ∧ 1 ≤ s.stack ∧ s.stack ≤ s.memory.size)
        fun s t => t.word t.stack = slotWord image r slot s ∧
          ∀ top, Pushes 1 r.pool.live top s t := by
  simp only [passResultSlot, bind_ok, push_ok, release_ok, pure_ok] at h
  obtain ⟨_, r₁, htemporary, x, r₂, haddress, _, _, rfl, _, _, ⟨p, hrelease, rfl⟩, rfl, rfl⟩ := h
  obtain ⟨⟨frame, hkind, rfl⟩, -⟩ := temporary_ok htemporary
  obtain ⟨htakes, front, hr₂, hloads⟩ := slotAddress_runs image handlers haddress
  simp only [Routine.withDepth_pool, Routine.plus_pool] at hrelease
  have hvalid := hr.valid
  have hvalid' : p.Valid := (htakes.valid hvalid).release hrelease
  have hlive : p.live = r.pool.live := by
    obtain ⟨-, rfl⟩ := Pool.release_eq_ok hrelease
    simp only [htakes.live, List.erase_cons_head, Routine.withFrame_pool]
  have hprepares : Prepares r (((r₂.plus (pushCode x)).withDepth (addExtent r₂.depth 1)).withPool p) 1
      (front ++ pushCode x) := by
    refine ⟨?_, ?_, ?_, ?_, .of_eq hlive, hvalid'⟩
    · rw [hr₂]
      simp
    · rw [hr₂]
      rfl
    · rw [hr₂]
      rfl
    · rw [hr₂]
      exact hkind
  refine ⟨⟨_, htemporary⟩, front ++ pushCode x, hprepares, ?_⟩
  · rintro a s hp hs hone ⟨hframe, hsize, hlow, hhigh⟩
    obtain ⟨hpfront, hppush⟩ := Machine.placed_append.1 hp
    have hkinds : (∃ f, frame = .stack f) → ∃ f, r.frame = .stack f := by
      rintro ⟨f, rfl⟩
      exact hkind.stack
    obtain ⟨t₁, hrun₁, hpc₁, hx₁, hreg₁, hmemory₁, -⟩ := hloads a s hpfront hs hone
      ⟨fun h => hframe (hkinds h), hsize⟩
    have hstack₁ : t₁.stack = s.stack := by
      rw [State.stack, hreg₁ .sp (.sp (htakes.valid hvalid)), State.stack]
    obtain ⟨t, hrun₂, hpc₂, ht⟩ := Machine.reaches_push handlers hppush hpc₁ htakes.writable.lt
      (Pool.ne_sp_of_mem htakes.mem) (by omega) (by rw [hmemory₁]; omega) (hrun₁.one hone)
    have hstack := ht.stack
    simp only [List.length_singleton] at hstack
    refine ⟨t, hrun₁.trans hrun₂, ?_, ?_, fun top => ⟨by omega, fun q hq => ?_, fun y hy _ => ?_⟩⟩
    · rw [hpc₂, Machine.totalSize_append, Machine.totalSize_pushCode, Nat.add_assoc]
    · rw [show t.stack = t₁.stack - 1 - 0 by omega, ht.pushed 0 _ rfl, hx₁]
      exact slotWord_congr image hkind rfl
    · rw [ht.reg q (Pool.ne_sp_of_mem (hvalid.allocatable hq)), hreg₁ q (.inl hq)]
    · rw [ht.above y (by omega), State.word, hmemory₁]
      rfl

end ResultSlot

/-! ## Everything in front of the jump -/

/-- The registers that a call saves: the caller-save ones in use, except that of the callee. -/
def savedRegisters (p : Pool) (callee : Register) : List Register :=
  p.liveCallerSave.filter (· ≠ callee)

/-- A call saves the caller-save registers in use. -/
theorem mem_savedRegisters {p : Pool} {callee q : Register} (hvalid : p.Valid) :
    q ∈ savedRegisters p callee ↔ q ∈ p.live ∧ q.isCallerSave = true ∧ q ≠ callee := by
  simp only [savedRegisters, Pool.liveCallerSave, Pool.isAllocated, List.mem_filter,
    List.contains_iff_mem, Bool.and_eq_true, decide_eq_true_eq]
  exact ⟨fun h => ⟨h.1.2.2, h.1.2.1, h.2⟩, fun h => ⟨⟨hvalid.allocatable h.1, h.2.1, h.1⟩, h.2.2⟩⟩

/-- No register is saved twice. -/
theorem nodup_savedRegisters (p : Pool) (callee : Register) : (savedRegisters p callee).Nodup :=
  (Pool.nodup_allocatable.filter _).filter _

/-- A register that can be taken is caller-save or callee-save. -/
theorem isCalleeSave_of_mem {q : Register} (h : q ∈ Pool.allocatable)
    (hcaller : q.isCallerSave = false) : q.isCalleeSave = true := by
  have hrange := Pool.mem_allocatable.1 h
  simp only [Register.isCallerSave, Register.isCalleeSave, Bool.and_eq_true, Bool.and_eq_false_iff,
    decide_eq_true_eq, decide_eq_false_iff_not] at hcaller ⊢
  omega

/-- The words that the address of a result takes on the stack. -/
def Result.words (result : Result) : Nat := if result.isHidden then 1 else 0

/-- The words that a call pushes. -/
def pushedWords (p : Pool) (callee : Register) (arguments : List Argument) (result : Result) : Nat :=
  (savedRegisters p callee).length + (result.words + argumentWords arguments)

/-- A routine where a call has pushed the registers that it saves. -/
def Routine.saving (r : Routine) (callee : Register) : Routine :=
  (r.calling.plus ((savedRegisters r.pool callee).flatMap pushCode)).withDepth
    (addExtent r.depth (savedRegisters r.pool callee).length)

/-- The address for a result is passed if the result fits no register. -/
def passResult (result : Result) : Gen (Option Slot) :=
  if result.isHidden then some <$> passResultSlot result.size else pure none

/-- What holds in a state in which addresses in the frame can be computed. -/
def Framed (r : Routine) (s : State) : Prop :=
  ((∃ f, r.frame = .stack f) → frameSlot r s < s.memory.size) ∧ s.memory.size ≤ 4294967296

/-- A state in which a call can start that pushes some words. -/
structure CanCall (r : Routine) (pushed : Nat) (s : State) : Prop where
  framed : Framed r s
  depth : 0 ≤ r.depth
  high : s.stack + r.depth.toNat ≤ s.memory.size
  low : pushed ≤ s.stack

/-- A state in a call that started in the state `s`: words were pushed, first the saved registers. -/
structure Prepared (r : Routine) (callee : Register) (pushed : Nat) (s s₁ : State) : Prop extends
    Pushes pushed r.pool.live (s.stack + r.depth.toNat) s s₁ where
  saves : ∀ i q, (savedRegisters r.pool callee)[i]? = some q → s₁.word (s.stack - 1 - i) = s.reg q

section Preparing

variable (image : Image) (handlers : Handlers) {r r₁ r' : Routine} {slot : Option Slot}
  {result : Result} {callee : Register} {arguments : List Argument} {words : Int} {s t u : State}

/-- Addresses can be computed wherever the frame is of the same kind and at the same place. -/
theorem Framed.congr (h : Framed r s) (hkind : SameKind r.frame r'.frame)
    (hslot : frameSlot r' t = frameSlot r s) (hsize : t.memory.size = s.memory.size) :
    Framed r' t := by
  refine ⟨?_, hsize ▸ h.2⟩
  rintro ⟨f, hf⟩
  rw [hslot, hsize]
  exact h.1 (hf ▸ hkind).stack

/-- More is pushed behind the saved registers. -/
theorem Prepared.more {m n : Nat} (h : Prepared r callee m s t)
    (hm : (savedRegisters r.pool callee).length ≤ m)
    (h' : Pushes n r.pool.live (s.stack + r.depth.toNat) t u) : Prepared r callee (m + n) s u where
  toPushes := h.toPushes.trans h'
  saves i q hi := by
    have hlt : i < (savedRegisters r.pool callee).length := (List.getElem?_eq_some_iff.1 hi).1
    have hstack := h.stack
    rw [h'.kept _ (by omega) (by omega), h.saves i q hi]

/-- What pushing the saved registers leaves of a routine. -/
theorem saving_prepares (hr : Ready r) :
    Prepares r (r.saving callee) (savedRegisters r.pool callee).length
      ((savedRegisters r.pool callee).flatMap pushCode) where
  code := by simp [Routine.saving]
  name := rfl
  depth := rfl
  frame := .refl _
  live := .refl _
  valid := hr.valid

/-- The registers in use are saved. -/
theorem pushSaved_runs (hvalid : r.pool.Valid) :
    Runs image handlers ((savedRegisters r.pool callee).flatMap pushCode)
      (fun s => (savedRegisters r.pool callee).length ≤ s.stack ∧ s.stack ≤ s.memory.size)
      (Prepared r callee (savedRegisters r.pool callee).length) := by
  rintro a s hp hs hone ⟨hlow, hhigh⟩
  have hmem (q : Register) (hq : q ∈ savedRegisters r.pool callee) : q ∈ Pool.allocatable :=
    hvalid.allocatable ((mem_savedRegisters hvalid).1 hq).1
  obtain ⟨t, hrun, hpc, h⟩ := Machine.reaches_pushes handlers hp hs
    (fun q hq => ⟨(Pool.writable_of_mem (hmem q hq)).lt, Pool.ne_sp_of_mem (hmem q hq)⟩) hlow hhigh hone
  have hstack := h.stack
  rw [List.length_map] at hstack
  refine ⟨t, hrun, by rw [hpc, Machine.totalSize_pushes], ⟨hstack, fun q hq => ?_, fun x hx _ => ?_⟩,
    fun i q hi => ?_⟩
  · exact h.reg q (Pool.ne_sp_of_mem (hvalid.allocatable hq))
  · exact h.above x hx
  · exact h.pushed i _ (by rw [List.getElem?_map, hi, Option.map_some])

/-- The address for the result is passed if the result fits no register. -/
theorem passResult_runs (hr : Ready r) (h : passResult result r = .ok slot r') :
    (result.isHidden = false → slot = none) ∧
      (result.isHidden = true → ∃ sl r₁, slot = some sl ∧ temporary result.size r = .ok sl r₁) ∧
      ∃ code, Prepares r r' result.words code ∧
      Runs image handlers code
        (fun s => Framed r s ∧ result.words ≤ s.stack ∧ s.stack ≤ s.memory.size)
        fun s t => (∀ sl, slot = some sl → t.word t.stack = slotWord image r sl s) ∧
          ∀ top, Pushes result.words r.pool.live top s t := by
  unfold passResult at h
  cases hhidden : result.isHidden with
  | false =>
    have hwords : result.words = 0 := by simp [Result.words, hhidden]
    rw [hhidden] at h
    obtain ⟨rfl, rfl⟩ := pure_ok.1 h
    rw [hwords]
    exact ⟨fun _ => rfl, by simp, [], .refl hr,
      fun a s _ hs _ _ => ⟨s, .refl s, hs, by simp, fun top => .refl _ top s⟩⟩
  | true =>
    have hwords : result.words = 1 := by simp [Result.words, hhidden]
    simp only [hhidden, ↓reduceIte, map_ok] at h
    obtain ⟨sl, hslot, rfl⟩ := h
    obtain ⟨⟨r₁, htemporary⟩, code, hprepares, hruns⟩ := passResultSlot_runs image handlers hr hslot
    rw [hwords]
    refine ⟨by simp, fun _ => ⟨sl, r₁, rfl, htemporary⟩, code, hprepares, ?_⟩
    rintro a s hp hs hone ⟨hframed, hlow, hhigh⟩
    obtain ⟨t, hst, htpc, hword, ht⟩ := hruns a s hp hs hone ⟨hframed.1, hframed.2, hlow, hhigh⟩
    exact ⟨t, hst, htpc, fun sl' h => by cases h; exact hword, ht⟩

/-- Arguments can be generated behind the address for the result. -/
theorem ready_passResult (hr : Ready r) (h : passResult result (r.saving callee) = .ok slot r') :
    Ready r' := by
  have hsaving : Ready (r.saving callee) := (saving_prepares hr).ready hr
  obtain ⟨-, -, code, hprepares, -⟩ := passResult_runs ⟨[], #[], #[]⟩ [] hsaving h
  exact hprepares.ready hsaving

/-- The code of a call up to the jump pushes the saved registers, the address for the result and the
arguments, and delivers the words of the arguments. -/
theorem prepare_runs (hr : Ready r) (hbalanced : ∀ arg ∈ arguments, arg.IsBalanced)
    (hslot : passResult result (r.saving callee) = .ok slot r₁)
    (hwords : passArguments arguments result.words r₁ = .ok words r') :
    words = addExtent result.words (argumentWords arguments) ∧
      (result.isHidden = false → slot = none) ∧
      (result.isHidden = true → ∃ sl r₃, slot = some sl ∧ temporary result.size r = .ok sl r₃) ∧
      ∃ code, Prepares r r' (pushedWords r.pool callee arguments result) code ∧
      ∀ a s, Placed image a code → s.pc = UInt32.ofNat a → s.reg .one = 1 →
        CanCall r (pushedWords r.pool callee arguments result) s →
        EvaluatesFrom image handlers s r.depth
          (s.stack - pushedWords r.pool callee arguments result) arguments r₁ →
        ∃ t, Reaches image handlers s t ∧ t.pc = UInt32.ofNat (a + totalSize code) ∧
          Prepared r callee (pushedWords r.pool callee arguments result) s t ∧
          (∀ sl, slot = some sl →
            t.word (t.stack + argumentWords arguments) = slotWord image r sl s) ∧
          Delivered image handlers arguments s t := by
  have hsaving : Prepares r (r.saving callee) _ _ := saving_prepares hr
  obtain ⟨hnone, hsome, code₁, hprepares₁, hruns₁⟩ :=
    passResult_runs image handlers (hsaving.ready hr) hslot
  have hready₁ := ready_passResult hr hslot
  have hwrap : wrap (result.words : Int) = result.words := by
    unfold Result.words
    split <;> rfl
  obtain ⟨hcount, code₂, hprepares₂, hruns₂⟩ :=
    passArguments_runs image handlers hready₁ hbalanced hwrap hwords
  unfold pushedWords
  generalize hsaved : (savedRegisters r.pool callee).length = k at *
  refine ⟨hcount, hnone, fun hhidden => ?_, _, hsaving.trans (hprepares₁.trans hprepares₂), ?_⟩
  · obtain ⟨sl, r₃, hsl, htemporary⟩ := hsome hhidden
    obtain ⟨r₄, hr₄⟩ := (temporary_ok htemporary).2 r rfl
    exact ⟨sl, r₄, hsl, hr₄⟩
  intro a s hp hs hone ⟨hframed, hdepth, hhigh, hlow⟩ harguments
  simp only [Machine.placed_append] at hp
  obtain ⟨hpsaves, hpslot, hpargs⟩ := hp
  have hbound : s.stack < 4294967296 := (s.reg .sp).toNat_lt
  have hsize := hframed.2
  -- The saved registers.
  obtain ⟨s₁, hrun₁, hpc₁, h₁⟩ := pushSaved_runs image handlers hr.valid a s hpsaves hs hone
    ⟨by omega, by omega⟩
  rw [hsaved] at h₁
  have hstack₁ := h₁.stack
  have hsize₁ := hrun₁.size
  have hexact₁ : (r.saving callee).depth = r.depth + k := hsaving.depth_eq hdepth (by omega)
  have hslot₁ : frameSlot (r.saving callee) s₁ = frameSlot r s := by
    simp only [frameSlot]
    omega
  -- The address for the result.
  obtain ⟨s₂, hrun₂, hpc₂, hresult₂, h₂⟩ := hruns₁ _ s₁ hpslot hpc₁ (hrun₁.one hone)
    ⟨hframed.congr (.refl _) hslot₁ hsize₁, by omega, by omega⟩
  have h₂ : Prepared r callee (k + result.words) s s₂ := h₁.more (by omega) (h₂ _)
  have hstack₂ := h₂.stack
  have hsize₂ := hrun₂.size
  have hexact₂ : r₁.depth = r.depth + k + result.words := by
    rw [← hexact₁]
    exact hprepares₁.depth_eq (by omega) (by omega)
  have hpushed₂ := h₂.toPushes.perm hprepares₁.live
  rw [show k + result.words = (r₁.depth - r.depth).toNat by omega] at hpushed₂
  -- The arguments.
  obtain ⟨t, hrun₃, hpc₃, h₃, hdelivered⟩ := hruns₂ s s₂ r.depth _ _ harguments hpargs
    (hrun₁.trans hrun₂) hpc₂ (hrun₂.one (hrun₁.one hone)) (by omega) hpushed₂ (by omega) (by omega)
    (by omega) hdepth (by omega)
  have hprepared := h₂.more (by omega) (h₃.perm hprepares₁.live.symm)
  rw [Nat.add_assoc] at hprepared
  have hstack₃ := h₃.stack
  refine ⟨t, hrun₁.trans (hrun₂.trans hrun₃), ?_, hprepared, fun sl hsl => ?_, hdelivered⟩
  · rw [hpc₃]
    simp only [Machine.totalSize_append, Nat.add_assoc]
  · rw [hstack₃, h₃.kept _ (by omega) (by omega), hresult₂ sl hsl]
    refine slotWord_congr image (.refl _) ?_
    rw [hslot₁]
    exact h₁.kept _ (by simp only [frameSlot]; omega) (Nat.le_refl _)

end Preparing

end Qll.Codegen
