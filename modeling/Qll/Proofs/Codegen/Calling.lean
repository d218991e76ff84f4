import Qll.Proofs.Codegen.Passing
import Qll.Proofs.Machine.Placement

/-!
# Calls

A call pushes what `prepare_runs` says, jumps, and afterwards takes everything off the stack again. What
it leaves of its routine is stated for any depth, so that a call may be part of an argument of another
call; what it leaves of the machine depends on the return of the callee.
-/

namespace Qll.Codegen

open Assembly (Directive Value totalSize)
open Machine (Register Opcode Word Image Handlers State Placed Reaches ins pushCode popCode
  addExtent wrap)
open Qll.Computation

/-! ## Back from a call -/

section Unwinding

variable (image : Image) (handlers : Handlers) {r r₁ r₂ : Routine} {u : Unit} {n : Int}

/-- Shrinking the stack. -/
theorem drop_runs (h : drop n r = .ok u r₁) :
    0 ≤ n ∧ n < 4294967296 ∧ r.pool.Kept r₁.pool ∧
      ∃ code, r₁ = ((r.plus code).withPool r₁.pool).withDepth (addExtent r.depth (-n)) ∧
      Runs image handlers code (fun _ => True) fun s t =>
        t.reg .sp = s.reg .sp + UInt32.ofNat n.toNat ∧
          (∀ q, Untouched r.pool r₁.pool q → q ≠ .sp → t.reg q = s.reg q) ∧
          t.memory = s.memory ∧ t.interrupted = s.interrupted := by
  unfold drop at h
  rw [bind_ok] at h
  obtain ⟨_, r₀, hadjust, h⟩ := h
  simp only [moveDepth_front, get_bind_ok] at h
  obtain ⟨hlow, hhigh, hkept, -⟩ := adjust_ok hadjust
  obtain ⟨code, hr₀, hruns⟩ := adjust_runs image handlers (g := fun a b => a + b)
    (fun _ _ _ => rfl) (fun _ => UInt32.add_zero _) Register.writable_sp (.inr rfl) hadjust
  split at h
  · exact absurd h throw_ok
  · obtain ⟨-, rfl⟩ := pure_ok.1 h
    refine ⟨hlow, hhigh, hkept, code, ?_, hruns⟩
    have hdepth : r₀.depth = r.depth := by rw [hr₀]; rfl
    rw [hdepth, Routine.withDepth_pool, ← hr₀]

/-- Taking the words of a call off the stack and restoring the saved registers. -/
theorem unwind_runs {saved : List Register} {u' : PUnit}
    (hdrop : drop n r = .ok u r₁) (hpops : (forM saved.reverse pop : Gen PUnit) r₁ = .ok u' r₂)
    (hsaved : ∀ q ∈ saved, q ∈ Pool.allocatable) (hnodup : saved.Nodup) :
    0 ≤ n ∧ r.pool.Kept r₂.pool ∧ r₂.depth = addExtent r.depth (-n - saved.length) ∧
      ∃ code, r₂ = ((r.plus code).withPool r₂.pool).withDepth r₂.depth ∧
      Runs image handlers code
        (fun s => s.stack + n.toNat + saved.length ≤ s.memory.size ∧
          s.stack + n.toNat + saved.length < 4294967296)
        fun s t => t.stack = s.stack + n.toNat + saved.length ∧
          (∀ i q, saved[i]? = some q → t.reg q = s.word (t.stack - 1 - i)) ∧
          (∀ q, Untouched r.pool r₂.pool q → q ≠ .sp → q ∉ saved → t.reg q = s.reg q) ∧
          t.memory = s.memory ∧ t.interrupted = s.interrupted := by
  obtain ⟨hlow, hhigh, hkept, front, hr₁, hruns⟩ := drop_runs image handlers hdrop
  have hdepth₁ : r₁.depth = addExtent r.depth (-n) := by rw [hr₁]; rfl
  have hr₂ := (pops_ok (by rw [hdepth₁]; exact wrap_addExtent _ _)).1 hpops
  rw [List.length_reverse, hdepth₁, addExtent_addExtent] at hr₂
  subst hr₂
  refine ⟨hlow, hkept, rfl, front ++ saved.reverse.flatMap popCode, ?_, ?_⟩
  · nth_rewrite 1 [hr₁]
    simp
  · rintro a s hp hs hone ⟨hin, hbound⟩
    obtain ⟨hpfront, hppops⟩ := Machine.placed_append.1 hp
    obtain ⟨t₁, hrun₁, hpc₁, hsp₁, hreg₁, hmemory₁, hint₁⟩ := hruns a s hpfront hs hone trivial
    have hstack₁ : t₁.stack = s.stack + n.toNat := by
      have hn : (UInt32.ofNat n.toNat).toNat = n.toNat :=
        UInt32.toNat_ofNat_of_lt' (by rw [UInt32.size]; omega)
      rw [State.stack, hsp₁, UInt32.toNat_add, hn]
      exact Nat.mod_eq_of_lt (by change s.stack + n.toNat < _; omega)
    have hregs (q : Register) (hq : q ∈ saved.reverse) : q.Writable ∧ q ≠ .sp := by
      have hmem := hsaved q (List.mem_reverse.1 hq)
      exact ⟨Pool.writable_of_mem hmem, Pool.ne_sp_of_mem hmem⟩
    obtain ⟨t, hrun₂, hpc₂, ht⟩ := Machine.reaches_pops handlers hppops hpc₁ hregs
      (List.pairwise_reverse.2 (hnodup.imp Ne.symm))
      (by rw [List.length_reverse, hmemory₁]; omega) (by rw [List.length_reverse]; omega)
      (hrun₁.one hone)
    have hstack := ht.stack
    rw [List.length_reverse] at hstack
    refine ⟨t, hrun₁.trans hrun₂, ?_, by omega, fun i q hi => ?_, fun q hq hsp hmem => ?_, ?_, ?_⟩
    · rw [hpc₂, Machine.totalSize_append, Machine.totalSize_pops, Nat.add_assoc]
    · have hlt : i < saved.length := (List.getElem?_eq_some_iff.1 hi).1
      have hrev : saved.reverse[saved.length - 1 - i]? = some q := by
        rw [List.getElem?_reverse (by omega), show saved.length - 1 - (saved.length - 1 - i) = i by
          omega]
        exact hi
      rw [ht.popped _ q hrev, State.word, hmemory₁,
        show t₁.stack + (saved.length - 1 - i) = t.stack - 1 - i by omega]
      rfl
    · rw [ht.reg q hsp (by simpa using hmem), hreg₁ q hq hsp]
    · rw [ht.memory, hmemory₁]
    · rw [ht.interrupted, hint₁]

end Unwinding

/-! ## The parts of a call -/

/-- The label behind the call that a routine builds next. -/
def backLabel (r : Routine) : String := r.name ++ "$" ++ "return" ++ Nat.repr (r.labels + 1)

/-- The jump of a call, and the place behind it. -/
def enterCode (callee : Register) (back : String) : List Directive :=
  [.constant .result (.reference (symbol back)), ins .jmp [callee], .label back]

/-- A routine where the jump of a call was generated. -/
def Routine.entering (r : Routine) (callee : Register) : Routine :=
  (r.plus (enterCode callee (backLabel r))).withLabels (r.labels + 1)

/-- The result of a call is put into a new register, or its address if it fits none. -/
def giveResult : Option Slot → Gen Register
  | some slot => slotAddress slot
  | none => do
    let q ← allocate
    emit .mov [q, .result]
    return q

/-- The steps of a call. -/
theorem call_ok {callee out : Register} {arguments : List Argument} {result : Result}
    {r r' : Routine} (hdepth : wrap r.depth = r.depth)
    (h : call callee arguments result r = .ok out r') :
    ∃ slot r₁ words r₂ p r₃ r₄,
      passResult result (r.saving callee) = .ok slot r₁ ∧
      passArguments arguments result.words r₁ = .ok words r₂ ∧
      r₂.pool.release callee = .ok p ∧
      drop words ((r₂.entering callee).withPool p) = .ok () r₃ ∧
      (forM (savedRegisters r.pool callee).reverse pop : Gen PUnit) r₃ = .ok () r₄ ∧
      giveResult slot r₄ = .ok out r' := by
  unfold call at h
  rw [front_total (fun _ _ => modify_ok), get_bind_ok, List.forM_eq_forM] at h
  change (forM (savedRegisters r.pool callee) push >>= _) r.calling = _ at h
  rw [front_total (fun _ _ => pushes_ok (r := r.calling) hdepth)] at h
  have hjoin (k : Option Slot → Gen Register) :
      (if result.isHidden = true then some <$> passResultSlot result.size >>= k
        else pure none >>= k) = passResult result >>= k := by
    unfold passResult
    split <;> rfl
  have hfirst : (if result.isHidden then (1 : Int) else 0) = result.words := by
    unfold Result.words
    split <;> rfl
  dsimp only at h
  rw [hjoin, hfirst, bind_ok] at h
  obtain ⟨slot, r₁, hslot, h⟩ := h
  rw [bind_ok] at h
  obtain ⟨words, r₂, hwords, h⟩ := h
  simp only [newLabel_front, loadAddress_front, emit_front, placeLabel_front, release_front] at h
  obtain ⟨-, p, hp, h⟩ := h
  rw [bind_ok] at h
  obtain ⟨_, r₃, hdrop, h⟩ := h
  rw [bind_ok] at h
  obtain ⟨_, r₄, hpops, h⟩ := h
  refine ⟨slot, r₁, words, r₂, p, r₃, r₄, hslot, hwords, hp, ?_, hpops, ?_⟩
  · simpa [Routine.entering, enterCode, backLabel] using hdrop
  · cases slot with
    | none => exact h
    | some slot => exact h

section Parts

variable (image : Image) (handlers : Handlers) {r r' : Routine} {slot : Option Slot}
  {result : Result} {out : Register}

/-- The result of a call is the return register, or the address of the slot. -/
def resultWord (image : Image) (r : Routine) (slot : Option Slot) (s : State) : Word :=
  match slot with
  | some slot => slotWord image r slot s
  | none => s.reg .result

/-- The result of a call is put into a new register. -/
theorem giveResult_runs
    (h : giveResult slot r = .ok out r') :
    r.pool.Takes r'.pool out ∧ ∃ code, r' = (r.plus code).withPool r'.pool ∧
      Loads image handlers code r.pool r'.pool out (fun s => slot ≠ none → Framed r s)
        (resultWord image r slot) := by
  cases slot with
  | some slot =>
    obtain ⟨htakes, code, hr, hloads⟩ := slotAddress_runs image handlers h
    exact ⟨htakes, code, hr, fun a s hp hs hone hpre => hloads a s hp hs hone (hpre (by simp))⟩
  | none =>
    simp only [giveResult, allocate_front, emit_front, pure_ok] at h
    obtain ⟨q, p, hq, -, rfl, rfl⟩ := h
    have htakes := Pool.Takes.of_allocate hq
    refine ⟨htakes, [ins .mov [q, .result]], rfl, fun a s hp hs hone _ => ?_⟩
    refine ⟨_, Machine.reaches_mov handlers hp.1 hs htakes.writable (by decide) hone, rfl, ?_,
      fun x hx => ?_, rfl, rfl⟩
    · exact State.reg_assign_self _ _ _ _ htakes.writable.lt
    · exact State.reg_assign_of_ne _ _ _ _ _ (hx.ne htakes.new htakes.taken)

/-- The code of a call behind the return takes everything off the stack, restores the saved registers
and puts the result into a new register. -/
theorem conclude_runs {callee : Register} {saved : List Register} {p : Pool} {r₃ r₄ : Routine}
    {words : Int} (hvalid : r.pool.Valid) (hrelease : r.pool.release callee = .ok p)
    (hdrop : drop words (r.withPool p) = .ok () r₃)
    (hpops : (forM saved.reverse pop : Gen PUnit) r₃ = .ok () r₄)
    (hresult : giveResult slot r₄ = .ok out r')
    (hsaved : ∀ q ∈ saved, q ∈ Pool.allocatable) (hnodup : saved.Nodup) :
    0 ≤ words ∧ r'.depth = addExtent r.depth (-words - saved.length) ∧ p.Takes r'.pool out ∧
      r'.frame = r.frame ∧ r'.name = r.name ∧ ∃ code, r'.code.toList = r.code.toList ++ code ∧
      Runs image handlers code
        (fun s => s.stack + words.toNat + saved.length ≤ s.memory.size ∧
          s.stack + words.toNat + saved.length < 4294967296 ∧
          ∀ u : State, u.stack = s.stack + words.toNat + saved.length → u.memory = s.memory →
            slot ≠ none → Framed r' u)
        fun s t => t.stack = s.stack + words.toNat + saved.length ∧ t.memory = s.memory ∧
          (∀ i q, saved[i]? = some q → q ∈ p.live → t.reg q = s.word (t.stack - 1 - i)) ∧
          (∀ q, Untouched p r'.pool q → q ≠ .sp → q ∉ saved → t.reg q = s.reg q) ∧
          (slot = none → t.reg out = s.reg .result) ∧
          ∀ sl, slot = some sl → t.reg out = slotWord image r' sl t := by
  obtain ⟨hlow, hkept, hdepth₄, back, hr₄, hruns⟩ :=
    unwind_runs image handlers hdrop hpops hsaved hnodup
  obtain ⟨htakes, last, hr', hloads⟩ := giveResult_runs image handlers hresult
  have hvalid' : r'.pool.Valid := htakes.valid (hkept.valid (hvalid.release hrelease))
  have htakes' : p.Takes r'.pool out :=
    ⟨htakes.mem, hkept.live ▸ htakes.new, by rw [htakes.live, hkept.live]; rfl,
      fun x hx => htakes.ever x (hkept.ever x hx), htakes.taken,
      fun h => htakes.valid (hkept.valid h)⟩
  have hdepth' : r'.depth = r₄.depth := by rw [hr']; rfl
  have hframe' : r'.frame = r₄.frame := by rw [hr']; rfl
  refine ⟨hlow, hdepth'.trans hdepth₄, htakes', ?_, ?_, back ++ last, ?_, ?_⟩
  · rw [hframe', hr₄]
    rfl
  · rw [hr', hr₄]
    rfl
  · rw [hr', hr₄]
    simp
  rintro a s hp hs hone ⟨hin, hbound, hframed⟩
  obtain ⟨hpback, hplast⟩ := Machine.placed_append.1 hp
  obtain ⟨u, hrun₁, hpc₁, hstack₁, hsaved₁, hreg₁, hmemory₁, -⟩ :=
    hruns a s hpback hs hone ⟨hin, hbound⟩
  have hframed₄ (h : slot ≠ none) : Framed r₄ u := by
    have := hframed u hstack₁ hmemory₁ h
    unfold Framed frameSlot at this ⊢
    rwa [hdepth', hframe'] at this
  obtain ⟨t, hrun₂, hpc₂, hout, hreg₂, hmemory₂, -⟩ :=
    hloads _ u hplast hpc₁ (hrun₁.one hone) hframed₄
  have hstack₂ : t.stack = u.stack := by
    rw [State.stack, hreg₂ .sp (.sp hvalid'), State.stack]
  refine ⟨t, hrun₁.trans hrun₂, ?_, by omega, by rw [hmemory₂, hmemory₁], fun i q hi hq => ?_,
    fun q hq hsp hmem => ?_, fun hnone => ?_, fun sl hsl => ?_⟩
  · rw [hpc₂, Machine.totalSize_append, Nat.add_assoc]
  · rw [hreg₂ q (.inl (hkept.live ▸ hq)), hsaved₁ i q hi, hstack₂]
  · rw [hreg₂ q (hq.second (by rw [hkept.live]; exact fun x hx => hx)),
      hreg₁ q (hq.first htakes.ever) hsp hmem]
  · subst hnone
    have hnot : Register.result ∉ saved := fun h => absurd (hsaved _ h) (by decide)
    rw [hout]
    exact hreg₁ .result (.result (hkept.valid (hvalid.release hrelease))) (by decide) hnot
  · subst hsl
    rw [hout]
    refine (slotWord_congr image (by rw [hframe']; exact .refl _) ?_).symm
    rw [frameSlot, frameSlot, hstack₂, hdepth', State.word, hmemory₂]
    rfl

end Parts

/-- A routine that is entered in the state `m` returns in the state `m'`: to the address it was given,
with the stack pointer and the callee-save registers of its entry, and without a change to the words
from `words` above the stack pointer up to `top`. -/
structure Returns (words top : Nat) (m m' : State) : Prop where
  pc : m'.pc = m.reg .result
  sp : m'.reg .sp = m.reg .sp
  saved : ∀ q, q.isCalleeSave = true → m'.reg q = m.reg q
  kept : ∀ x, m.stack + words ≤ x → x ≤ top → m'.word x = m.word x

/-- A routine is entered: its return address is the place behind the jump. -/
theorem reaches_enter {image : Image} (handlers : Handlers) {a : Nat} {s : State} {callee : Register}
    {label : String} (hlabel : symbol label = label) (hp : Placed image a (enterCode callee label))
    (hs : s.pc = UInt32.ofNat a) (hone : s.reg .one = 1) (hcallee : callee ∈ Pool.allocatable) :
    ∃ m, Reaches image handlers s m ∧ m.pc = s.reg callee ∧
      m.reg .result = UInt32.ofNat (a + 3) ∧ (∀ q, q ≠ .result → m.reg q = s.reg q) ∧
      m.memory = s.memory := by
  rw [enterCode, hlabel] at hp
  obtain ⟨hconstant, hjmp, hhere, -⟩ := hp
  have hrun₁ := Machine.reaches_constant handlers hconstant (Machine.constantWord_reference hhere) hs
    Register.writable_result hone
  have hrun₂ := Machine.reaches_jmp handlers hjmp rfl (Pool.writable_of_mem hcallee).lt
    (hrun₁.one hone)
  rw [State.reg_assign_of_ne _ _ _ _ _ (Pool.ne_result_of_mem hcallee)] at hrun₂
  refine ⟨_, hrun₁.trans hrun₂, rfl, ?_, fun q hq => ?_, rfl⟩
  · rw [State.goto_reg, State.reg_assign_self _ _ _ _ (by decide)]
    rfl
  · rw [State.goto_reg, State.reg_assign_of_ne _ _ _ _ _ hq]

/-- What a call leaves of a routine: more code, and one register in use for the other. -/
structure Exchanges (r r' : Routine) (callee out : Register) (code : List Directive) : Prop where
  code : r'.code.toList = r.code.toList ++ code
  name : r'.name = r.name
  depth : r'.depth = r.depth
  frame : SameKind r.frame r'.frame
  mem : callee ∈ r.pool.live
  live : r'.pool.live.Perm (out :: r.pool.live.erase callee)
  valid : r'.pool.Valid

/-- As many registers are in use as before. -/
theorem Exchanges.outstanding {r r' : Routine} {callee out : Register} {code : List Directive}
    (h : Exchanges r r' callee out code) : r'.pool.outstanding = r.pool.outstanding := by
  have hpos : 0 < r.pool.live.length := List.length_pos_of_mem h.mem
  rw [Pool.outstanding, h.live.length_eq, List.length_cons, List.length_erase_of_mem h.mem,
    Pool.outstanding]
  omega

/-- The words of a call come off the depth again, also where they cannot be counted. -/
theorem addExtent_unwind {d : Int} (hd : wrap d = d) (k n : Nat) :
    addExtent (addExtent d (k + n : Nat)) (-wrap n - k) = d := by
  rw [addExtent_addExtent, addExtent,
    show d + (((k + n : Nat) : Int) + (-wrap n - k)) = d + n - wrap n by omega, wrap, wrap,
    Int.sub_bmod_bmod, Int.add_sub_cancel]
  exact hd

section Whole

variable (image : Image) (handlers : Handlers) {callee out : Register} {r r₂ r₃ r₄ r' : Routine}
  {p : Pool} {slot : Option Slot} {passed : Nat} {front : List Directive}

/-- What the code of a call from the jump on leaves of the routine, and the run behind the return. -/
theorem finishCall_exchanges (hr : Ready r)
    (hprepares : Prepares r r₂ ((savedRegisters r.pool callee).length + passed) front)
    (hrelease : r₂.pool.release callee = .ok p)
    (hdrop : drop (wrap passed) ((r₂.entering callee).withPool p) = .ok () r₃)
    (hpops : (forM (savedRegisters r.pool callee).reverse pop : Gen PUnit) r₃ = .ok () r₄)
    (hresult : giveResult slot r₄ = .ok out r') :
    p.live.Perm (r.pool.live.erase callee) ∧ ∃ back,
      Exchanges r r' callee out (front ++ (enterCode callee (backLabel r₂) ++ back)) ∧
      Runs image handlers back
        (fun s => s.stack + (wrap passed).toNat + (savedRegisters r.pool callee).length ≤ s.memory.size ∧
          s.stack + (wrap passed).toNat + (savedRegisters r.pool callee).length < 4294967296 ∧
          ∀ u : State, u.stack = s.stack + (wrap passed).toNat + (savedRegisters r.pool callee).length →
            u.memory = s.memory → slot ≠ none → Framed r' u)
        fun s t => t.stack = s.stack + (wrap passed).toNat + (savedRegisters r.pool callee).length ∧
          t.memory = s.memory ∧
          (∀ i q, (savedRegisters r.pool callee)[i]? = some q → q ∈ p.live →
            t.reg q = s.word (t.stack - 1 - i)) ∧
          (∀ q, Untouched p r'.pool q → q ≠ .sp → q ∉ savedRegisters r.pool callee →
            t.reg q = s.reg q) ∧
          (slot = none → t.reg out = s.reg .result) ∧
          ∀ sl, slot = some sl → t.reg out = slotWord image r' sl t := by
  have hvalid := hr.valid
  have hsaved (q : Register) (hq : q ∈ savedRegisters r.pool callee) : q ∈ Pool.allocatable :=
    hvalid.allocatable ((mem_savedRegisters hvalid).1 hq).1
  obtain ⟨-, hdepth', htakes, hframe', hname', back, hback, hruns⟩ :=
    conclude_runs image handlers (r := r₂.entering callee) hprepares.valid hrelease hdrop hpops
      hresult hsaved (nodup_savedRegisters r.pool callee)
  have hperm : p.live.Perm (r.pool.live.erase callee) := by
    rw [(Pool.release_eq_ok hrelease).2]
    exact hprepares.live.erase callee
  refine ⟨hperm, back, ⟨?_, hname'.trans hprepares.name, ?_, ?_, ?_, ?_, ?_⟩, hruns⟩
  · rw [hback, Routine.entering, Routine.withLabels_code, Routine.plus_code, hprepares.code]
    simp
  · rw [hdepth', Routine.entering, Routine.withLabels_depth, Routine.plus_depth, hprepares.depth]
    exact addExtent_unwind hr.depth _ _
  · rw [hframe']
    exact hprepares.frame
  · exact hprepares.live.subset (Pool.release_eq_ok hrelease).1
  · rw [htakes.live]
    exact hperm.cons out
  · exact htakes.valid (hprepares.valid.release hrelease)

/-- A call whose words lie on the stack can count them. -/
theorem CanCall.wrap_eq {k : Nat} {s : State} (h : CanCall r (k + passed) s) :
    wrap passed = passed := by
  have hlow := h.low
  have hbound : s.stack < 4294967296 := (s.reg .sp).toNat_lt
  exact Machine.wrap_of_bounds (by omega) (by omega)

/-- The code of a call from the jump on, once everything is pushed: it enters the callee and, when
that returns, takes the words off the stack, restores the saved registers and gives the result. -/
theorem finishCall_runs (hr : Ready r)
    (hprepares : Prepares r r₂ ((savedRegisters r.pool callee).length + passed) front)
    (hrelease : r₂.pool.release callee = .ok p)
    (hdrop : drop (wrap passed) ((r₂.entering callee).withPool p) = .ok () r₃)
    (hpops : (forM (savedRegisters r.pool callee).reverse pop : Gen PUnit) r₃ = .ok () r₄)
    (hresult : giveResult slot r₄ = .ok out r') :
    ∃ rest, Exchanges r r' callee out (front ++ rest) ∧
      ∀ {a : Nat} {s s₁ : State}, Placed image (a + totalSize front) rest → s₁.reg .one = 1 →
        CanCall r ((savedRegisters r.pool callee).length + passed) s →
        s₁.memory.size = s.memory.size → s₁.pc = UInt32.ofNat (a + totalSize front) →
        Prepared r callee ((savedRegisters r.pool callee).length + passed) s s₁ →
        ∃ m, Reaches image handlers s₁ m ∧ m.pc = s.reg callee ∧ m.stack = s₁.stack ∧
          (∀ x, m.word x = s₁.word x) ∧
          ∀ m', Reaches image handlers m m' → Returns passed (s.stack + r.depth.toNat) m m' →
            ∃ t, Reaches image handlers m' t ∧ t.pc = UInt32.ofNat (a + totalSize (front ++ rest)) ∧
              t.reg .sp = s.reg .sp ∧ t.memory = m'.memory ∧
              (∀ x, s.stack ≤ x → x ≤ frameSlot r s → t.word x = s.word x) ∧
              (∀ q ∈ r.pool.live, q ≠ callee → t.reg q = s.reg q) ∧
              (slot = none → t.reg out = m'.reg .result) ∧
              ∀ sl, slot = some sl → t.reg out = slotWord image r sl s := by
  have hvalid := hr.valid
  obtain ⟨hperm, back, hexchanges, hconclude⟩ :=
    finishCall_exchanges image handlers hr hprepares hrelease hdrop hpops hresult
  have hlabel : symbol (backLabel r₂) = backLabel r₂ :=
    symbol_newLabel (hprepares.ready hr).name (by decide) _
  refine ⟨_, hexchanges, ?_⟩
  intro a s s₁ hp hone hcan hsize₁ hpc₁ h₁
  rw [hcan.wrap_eq, Int.toNat_natCast] at hconclude
  obtain ⟨hframed, hdepth, hhigh, hlow⟩ := hcan
  obtain ⟨hpenter, hpback⟩ := Machine.placed_append.1 hp
  have hbound : s.stack < 4294967296 := (s.reg .sp).toNat_lt
  have hsize := hframed.2
  have hstack₁ := h₁.stack
  -- The run into the callee.
  obtain ⟨m, hrun, hmpc, hmback, hmreg, hmmemory⟩ :=
    reaches_enter handlers hlabel hpenter hpc₁ hone (hvalid.allocatable hexchanges.mem)
  have hmword (x : Nat) : m.word x = s₁.word x := congrFun (State.word_eq_of_memory hmmemory) x
  have hmstack : m.stack = s₁.stack := by rw [State.stack, hmreg .sp (by decide), State.stack]
  rw [h₁.reg callee hexchanges.mem] at hmpc
  refine ⟨m, hrun, hmpc, hmstack, hmword, fun m' hrun' hreturns => ?_⟩
  -- The run behind the return.
  have hm'stack : m'.stack = m.stack := by rw [State.stack, hreturns.sp, State.stack]
  have hm'size : m'.memory.size = s.memory.size := by rw [hrun'.size, hrun.size, hsize₁]
  have hframed' (u : State) (hu : u.stack = m'.stack + passed + (savedRegisters r.pool callee).length)
      (hmemory : u.memory = m'.memory) : Framed r' u := by
    refine hframed.congr hexchanges.frame ?_ (by rw [hmemory, hm'size])
    rw [frameSlot, frameSlot, hexchanges.depth]
    omega
  obtain ⟨t, hrun₂, hpc₂, hstack₂, hmemory₂, hsaves₂, hreg₂, houtNone, houtSome⟩ :=
    hconclude _ m' hpback (by rw [hreturns.pc, hmback]; rfl) ((hrun.trans hrun').one hone)
      ⟨by omega, by omega, fun u hu hmemory _ => hframed' u hu hmemory⟩
  have htstack : t.stack = s.stack := by omega
  -- The words above the stack pointer up to the frame pointer are those at the start.
  have hkept (x : Nat) (hx : s.stack ≤ x) (htop : x ≤ frameSlot r s) : t.word x = s.word x := by
    rw [frameSlot] at htop
    rw [State.word_eq_of_memory hmemory₂, hreturns.kept x (by omega) htop, hmword,
      h₁.kept x hx htop]
  have hslots : frameSlot r' t = frameSlot r s := by
    rw [frameSlot, frameSlot, htstack, hexchanges.depth]
  refine ⟨t, hrun₂, ?_, UInt32.toNat_inj.1 htstack, hmemory₂, hkept, fun q hq hne => ?_, houtNone,
    fun sl hsl => ?_⟩
  · rw [hpc₂, enterCode]
    simp only [Machine.totalSize_append, Nat.add_assoc]
  · have hqp : q ∈ p.live := hperm.symm.subset (List.mem_erase_of_ne hne |>.2 hq)
    have hqalloc := hvalid.allocatable hq
    cases hcaller : q.isCallerSave with
    | true =>
      obtain ⟨i, hi, hqi⟩ :=
        List.getElem_of_mem ((mem_savedRegisters hvalid).2 ⟨hq, hcaller, hne⟩)
      have hi' : (savedRegisters r.pool callee)[i]? = some q := by rw [← hqi]; simp [hi]
      rw [hsaves₂ i q hi' hqp, htstack, hreturns.kept _ (by omega) (by omega), hmword,
        h₁.saves i q hi']
    | false =>
      have hnot : q ∉ savedRegisters r.pool callee := fun h => by
        have := ((mem_savedRegisters hvalid).1 h).2.1
        rw [hcaller] at this
        cases this
      rw [hreg₂ q (.inl hqp) (Pool.ne_sp_of_mem hqalloc) hnot,
        hreturns.saved q (isCalleeSave_of_mem hqalloc hcaller),
        hmreg q (Pool.ne_result_of_mem hqalloc), h₁.reg q hq]
  · rw [houtSome sl hsl]
    exact slotWord_congr image hexchanges.frame
      (by rw [hslots]; exact hkept _ (Nat.le_add_right _ _) (Nat.le_refl _))

/-- A call: what it leaves of the routine, the state in which it enters the callee and, when that
returns, the state behind the call. -/
theorem call_runs {arguments : List Argument} {result : Result} (hr : Ready r)
    (hbalanced : ∀ arg ∈ arguments, arg.IsBalanced)
    (hcall : call callee arguments result r = .ok out r') :
    ∃ slot r₁ code, passResult result (r.saving callee) = .ok slot r₁ ∧
      Exchanges r r' callee out code ∧ (result.isHidden = false → slot = none) ∧
      (result.isHidden = true → ∃ sl r₃, slot = some sl ∧ temporary result.size r = .ok sl r₃) ∧
      ∀ a s, Placed image a code → s.pc = UInt32.ofNat a → s.reg .one = 1 →
        CanCall r (pushedWords r.pool callee arguments result) s →
        EvaluatesFrom image handlers s r.depth
          (s.stack - pushedWords r.pool callee arguments result) arguments r₁ →
        ∃ m, Reaches image handlers s m ∧ m.pc = s.reg callee ∧
          m.stack + pushedWords r.pool callee arguments result = s.stack ∧
          Delivered image handlers arguments s m ∧
          (∀ sl, slot = some sl →
            m.word (m.stack + argumentWords arguments) = slotWord image r sl s) ∧
          ∀ m', Reaches image handlers m m' →
            Returns (result.words + argumentWords arguments) (s.stack + r.depth.toNat) m m' →
            ∃ t, Reaches image handlers m' t ∧ t.pc = UInt32.ofNat (a + totalSize code) ∧
              t.reg .sp = s.reg .sp ∧ t.memory = m'.memory ∧
              (∀ x, s.stack ≤ x → x ≤ frameSlot r s → t.word x = s.word x) ∧
              (∀ q ∈ r.pool.live, q ≠ callee → t.reg q = s.reg q) ∧
              (slot = none → t.reg out = m'.reg .result) ∧
              ∀ sl, slot = some sl → t.reg out = slotWord image r sl s := by
  obtain ⟨slot, r₁, words, r₂, p, r₃, r₄, hslot, hwords, hrelease, hdrop, hpops, hresult⟩ :=
    call_ok hr.depth hcall
  obtain ⟨hcount, hnone, hsome, front, hprepares, hprepare⟩ :=
    prepare_runs image handlers hr hbalanced hslot hwords
  have hcount : words = wrap (result.words + argumentWords arguments : Nat) := by
    rw [hcount, Int.natCast_add]
    rfl
  rw [hcount] at hdrop
  obtain ⟨rest, hexchanges, hfinish⟩ :=
    finishCall_runs image handlers hr hprepares hrelease hdrop hpops hresult
  refine ⟨slot, r₁, front ++ rest, hslot, hexchanges, hnone, hsome, ?_⟩
  intro a s hp hs hone hcan harguments
  obtain ⟨hpfront, hprest⟩ := Machine.placed_append.1 hp
  obtain ⟨s₁, hrun₁, hpc₁, h₁, hslot₁, hdelivered⟩ := hprepare a s hpfront hs hone hcan harguments
  obtain ⟨m, hrun₂, hmpc, hmstack, hmword, hback⟩ :=
    hfinish hprest (hrun₁.one hone) hcan hrun₁.size hpc₁ h₁
  refine ⟨m, hrun₁.trans hrun₂, hmpc, by rw [hmstack]; exact h₁.stack, fun i arg harg => ?_,
    fun sl hsl => by rw [hmword, hmstack, hslot₁ sl hsl], hback⟩
  obtain ⟨q, u, hends, hk⟩ := hdelivered i arg harg
  exact ⟨q, u, hends, fun k hlt => by rw [hmstack, hmword, hk k hlt]⟩

end Whole

/-! ## The protocol -/

/-- The call protocol. Take a call in a state `s` of the machine at the depth of the routine, with
room for the words it pushes. If the code of each argument keeps the balance of an expression and can be
relied on where it is generated, and the routine whose address is in `callee` returns whenever it is
entered by the call, then the call comes back: the depth and the number of registers in use are those
before it, the stack pointer and the registers in use other than `callee` hold what they held, and the
new register holds what the callee left in the return register, or the address of the slot that was
passed to it. An object outside the pushed words that the callee changes at most through its parameters
is not changed. -/
theorem call_protocol {callee out : Register} {arguments : List Argument} {result : Result}
    {r r' : Routine} {image : Image} (handlers : Handlers) {code : List Directive} {a : Nat}
    {s : State} (hvalid : r.pool.Valid) (hname : symbol r.name = r.name) (hdepth : 0 ≤ r.depth)
    (hbalanced : ∀ arg ∈ arguments, arg.IsBalanced)
    (hcall : call callee arguments result r = .ok out r')
    (hcode : r'.code.toList = r.code.toList ++ code) (hp : Placed image a code)
    (hs : s.pc = UInt32.ofNat a) (hone : s.reg .one = 1) (hframed : Framed r s)
    (hhigh : s.stack + r.depth.toNat ≤ s.memory.size)
    (hlow : pushedWords r.pool callee arguments result ≤ s.stack)
    (harguments : ∀ slot r₁, passResult result (r.saving callee) = .ok slot r₁ →
      EvaluatesFrom image handlers s r.depth
        (s.stack - pushedWords r.pool callee arguments result) arguments r₁)
    (hcallee : ∀ m, Reaches image handlers s m → m.pc = s.reg callee →
      m.stack + pushedWords r.pool callee arguments result = s.stack →
      ∃ m', Reaches image handlers m m' ∧
        Returns (result.words + argumentWords arguments) (s.stack + r.depth.toNat) m m') :
    r'.depth = r.depth ∧ r'.pool.outstanding = r.pool.outstanding ∧
      r'.pool.live.Perm (out :: r.pool.live.erase callee) ∧
      ∃ m m' t, Reaches image handlers s m ∧ m.pc = s.reg callee ∧ Reaches image handlers m m' ∧
        Reaches image handlers m' t ∧ t.pc = UInt32.ofNat (a + totalSize code) ∧
        t.reg .sp = s.reg .sp ∧ (∀ q ∈ r.pool.live, q ≠ callee → t.reg q = s.reg q) ∧
        (result.isHidden = false → t.reg out = m'.reg .result) ∧
        (result.isHidden = true → ∃ slot r₁, temporary result.size r = .ok slot r₁ ∧
          m.word (m.stack + argumentWords arguments) = slotWord image r slot s ∧
          t.reg out = slotWord image r slot s) ∧
        ∀ object n, Outside m.stack s.stack object n →
          (∀ x, object ≤ x → x < object + n →
            (x < m.stack ∨ m.stack + (result.words + argumentWords arguments) ≤ x) →
              m'.word x = m.word x) →
          ∀ x, object ≤ x → x < object + n → t.word x = m.word x := by
  have hbound : s.stack < 4294967296 := (s.reg .sp).toNat_lt
  have hsize := hframed.2
  have hwrap : wrap r.depth = r.depth := Machine.wrap_of_bounds (by omega) (by omega)
  obtain ⟨slot, r₁, code', hslot, hexchanges, hnone, hsome, hruns⟩ :=
    call_runs image handlers ⟨hvalid, hwrap, hname⟩ hbalanced hcall
  obtain rfl : code = code' := List.append_cancel_left (hcode.symm.trans hexchanges.code)
  refine ⟨hexchanges.depth, hexchanges.outstanding, hexchanges.live, ?_⟩
  obtain ⟨m, hrun, hmpc, hmpushed, -, hmslot, hback⟩ :=
    hruns a s hp hs hone ⟨hframed, hdepth, hhigh, hlow⟩ (harguments slot r₁ hslot)
  obtain ⟨m', hrun', hreturns⟩ := hcallee m hrun hmpc hmpushed
  obtain ⟨t, hrun₃, htpc, hsp, hmemory, -, hregs, houtNone, houtSome⟩ := hback m' hrun' hreturns
  refine ⟨m, m', t, hrun, hmpc, hrun', hrun₃, htpc, hsp, hregs,
    fun hhidden => houtNone (hnone hhidden), fun hhidden => ?_,
    fun object n houtside hkept x hlow' hhigh' => ?_⟩
  · obtain ⟨sl, r₅, hsl, htemporary⟩ := hsome hhidden
    exact ⟨sl, r₅, htemporary, hmslot sl hsl, houtSome sl hsl⟩
  · rw [State.word_eq_of_memory hmemory]
    rw [pushedWords] at hmpushed
    refine hkept x hlow' hhigh' ?_
    rcases houtside with h | h
    · exact .inr (by omega)
    · exact .inl (by omega)

/-! ## A call as an argument -/

/-- An argument that is a call of the routine with a label. -/
def callArgument (label : String) (arguments : List Argument) (result : Result) : Argument where
  size := result.size
  integral := result.integral
  compile := do
    let callee ← allocate
    loadAddress callee label
    call callee arguments result

section CallArgument

variable {label : String} {arguments : List Argument} {result : Result}

/-- A call keeps the balance of an expression if its arguments do, at every depth. -/
theorem isBalanced_callArgument (hbalanced : ∀ arg ∈ arguments, arg.IsBalanced) :
    (callArgument label arguments result).IsBalanced := by
  intro r q r' hr h
  simp only [callArgument, allocate_front, loadAddress_front] at h
  obtain ⟨callee, p, hcallee, h⟩ := h
  have htakes := Pool.Takes.of_allocate hcallee
  obtain ⟨-, -, code, -, hexchanges, -⟩ := call_runs ⟨[], #[], #[]⟩ []
    (r := (r.withPool p).plus _) ⟨htakes.valid hr.valid, hr.depth, hr.name⟩ hbalanced h
  refine ⟨⟨.constant callee (.reference (symbol label)) :: code, ?_⟩, hexchanges.name, hexchanges.depth,
    hexchanges.frame, ?_, hexchanges.valid⟩
  · rw [hexchanges.code, Routine.plus_code, Routine.withPool_code, List.append_assoc]
    rfl
  · have hlive := hexchanges.live
    rwa [Routine.plus_pool, Routine.withPool_pool, htakes.live, List.erase_cons_head] at hlive

/-- A call saves at most the registers that can be taken. -/
theorem length_savedRegisters_le (p : Pool) (callee : Register) :
    (savedRegisters p callee).length ≤ 61 := by
  refine (List.length_filter_le _ _).trans ((List.length_filter_le _ _).trans ?_)
  decide

variable {image : Image} {handlers : Handlers} {s₀ : State} {depth : Int} {low : Nat} {r : Routine}
  {entry : Word}

/-- The code of a call that is an argument can be relied on where it is generated, if its arguments can
be relied on wherever they are, the callee returns whenever the call enters it, and there is room for
what the call pushes below the words of the call around it. A result that fits no register must have its
slot outside of these words. -/
theorem evaluatesAt_callArgument (hr : Ready r) (hbalanced : ∀ arg ∈ arguments, arg.IsBalanced)
    (hone : s₀.reg .one = 1) (hdepth : 0 ≤ depth) (hhigh : s₀.stack + depth.toNat < s₀.memory.size)
    (hsize : s₀.memory.size ≤ 4294967296) (hlow : 61 + (result.words + argumentWords arguments) ≤ low)
    (hvalue : 0 ≤ result.size) (hlabel : image.label? (symbol label) = some entry)
    (harguments : ∀ arg ∈ arguments, ∀ s d low', Reaches image handlers s₀ s →
      s.stack + d.toNat = s₀.stack + depth.toNat → arg.Evaluates image handlers s d low')
    (hcallee : ∀ m, Reaches image handlers s₀ m → m.pc = entry →
      m.stack + (result.words + argumentWords arguments) ≤ s₀.stack →
      ∃ m', Reaches image handlers m m' ∧
        Returns (result.words + argumentWords arguments) (s₀.stack + depth.toNat) m m')
    (hobject : result.isHidden = true → ∀ slot r₁ s, temporary result.size r = .ok slot r₁ →
      frameSlot r s = s₀.stack + depth.toNat →
      s.word (s₀.stack + depth.toNat) = s₀.word (s₀.stack + depth.toNat) →
      (slotWord image r slot s).toNat + result.size.toNat ≤ s₀.memory.size ∧
        Outside low s₀.stack (slotWord image r slot s).toNat result.size.toNat) :
    (callArgument label arguments result).EvaluatesAt image handlers s₀ depth low r := by
  intro out r' code a s h hcode hp hs₀ hs hle hpushed hroom
  simp only [callArgument, allocate_front, loadAddress_front] at h
  obtain ⟨callee, p, hallocate, h⟩ := h
  have htakes := Pool.Takes.of_allocate hallocate
  have hr₀ : Ready ((r.withPool p).plus [.constant callee (.reference (symbol label))]) :=
    ⟨htakes.valid hr.valid, hr.depth, hr.name⟩
  obtain ⟨slot, r₁, tail, hslot, hexchanges, hnone, hsome, hruns⟩ :=
    call_runs image handlers hr₀ hbalanced h
  obtain rfl : code = .constant callee (.reference (symbol label)) :: tail := by
    refine List.append_cancel_left (hcode.symm.trans (hexchanges.code.trans ?_))
    simp
  have hbound : s₀.stack < 4294967296 := (s₀.reg .sp).toNat_lt
  have hstack := hpushed.stack
  have hsaved := length_savedRegisters_le p callee
  have hframe : frameSlot r s = s₀.stack + depth.toNat := by
    rw [frameSlot]
    omega
  -- The address of the callee.
  obtain ⟨hconstant, hptail⟩ := hp
  have hrun₁ := Machine.reaches_constant handlers hconstant (Machine.constantWord_reference hlabel) hs
    htakes.writable (hs₀.one hone)
  generalize hs₁ : s.assign callee _ _ = s₁ at hrun₁
  have hother (x : Register) (hx : x ≠ callee) : s₁.reg x = s.reg x := by
    rw [← hs₁, State.reg_assign_of_ne _ _ _ _ _ hx]
  have hentry : s₁.reg callee = entry := by
    rw [← hs₁, State.reg_assign_self _ _ _ _ htakes.writable.lt]
  have hmemory₁ : s₁.memory = s.memory := by rw [← hs₁, State.assign_memory]
  have hstack₁ : s₁.stack = s.stack := by
    rw [State.stack, hother .sp (Pool.ne_sp_of_mem htakes.mem).symm, State.stack]
  have hrun := hs₀.trans hrun₁
  have hsize₁ := hrun.size
  -- The call.
  have hcan : CanCall ((r.withPool p).plus [.constant callee (.reference (symbol label))])
      (pushedWords p callee arguments result) s₁ := by
    refine ⟨⟨fun _ => ?_, by omega⟩, by rw [Routine.plus_depth]; exact hdepth.trans hle, ?_, ?_⟩
    · rw [frameSlot, hstack₁, Routine.plus_depth, Routine.withPool_depth, ← frameSlot, hframe]
      omega
    · rw [hstack₁, Routine.plus_depth, Routine.withPool_depth, ← frameSlot, hframe]
      omega
    · rw [hstack₁, pushedWords]
      omega
  obtain ⟨m, hrun₂, hmpc, hmpushed, -, -, hback⟩ := hruns _ s₁ hptail (by rw [← hs₁]; rfl)
    (hrun.one hone) hcan (evaluatesFrom_of_forall image handlers (ready_passResult hr₀ hslot) hbalanced
      fun arg harg => harguments arg harg _ _ _ hrun (by
        rw [hstack₁, Routine.plus_depth, Routine.withPool_depth]
        exact hframe))
  rw [pushedWords] at hmpushed
  obtain ⟨m', hrun₃, hreturns⟩ := hcallee m (hrun.trans hrun₂) (hmpc.trans hentry) (by omega)
  have htop : s₁.stack + (r.withPool p).depth.toNat = s₀.stack + depth.toNat := by
    rw [hstack₁]
    exact hframe
  obtain ⟨t, hrun₄, htpc, hsp, -, hkept, hregs, -, hout⟩ :=
    hback m' hrun₃ (by rw [Routine.plus_depth, htop]; exact hreturns)
  have hruns' := hrun₁.trans (hrun₂.trans (hrun₃.trans hrun₄))
  have hkept' (x : Nat) (hx : s.stack ≤ x) (hle : x ≤ s₀.stack + depth.toNat) : t.word x = s.word x := by
    rw [hkept x (by omega) (by rw [frameSlot, Routine.plus_depth, htop]; exact hle),
      State.word_eq_of_memory hmemory₁]
  refine ⟨t, hruns', ?_, ⟨?_, fun q hq => ?_, hkept'⟩, fun hobjects => ?_⟩
  · rw [htpc, Machine.totalSize_cons, ← Nat.add_assoc]
  · rw [Nat.add_zero, State.stack, hsp]
    exact hstack₁
  · have hne : q ≠ callee := fun heq => htakes.new (heq ▸ hq)
    rw [hregs q (htakes.live_subset q hq) hne, hother q hne]
  · have hintegral : result.integral = false := hobjects
    have hhidden : result.isHidden = true := by simp [Result.isHidden, hvalue, hintegral]
    have hwords : (callArgument label arguments result).words = result.size.toNat := by
      simp [Argument.words, callArgument, hintegral]
    obtain ⟨sl, r₃, hsl, htemporary⟩ := hsome hhidden
    obtain ⟨r₄, hr₄⟩ := (temporary_ok htemporary).2 r rfl
    have hobject := hobject hhidden sl r₄ s hr₄ hframe (hpushed.kept _ (by omega) (Nat.le_refl _))
    have hword : slotWord image ((r.withPool p).plus [.constant callee (.reference (symbol label))]) sl s₁ =
        slotWord image r sl s := by
      refine slotWord_congr image (.refl _) ?_
      rw [State.word_eq_of_memory hmemory₁, frameSlot, hstack₁]
      rfl
    rw [hout sl hsl, hword, hwords, hruns'.size, hs₀.size]
    exact hobject

/-- The code of a call whose result fits a register can be relied on wherever it is. -/
theorem evaluates_callArgument (hbalanced : ∀ arg ∈ arguments, arg.IsBalanced)
    (hone : s₀.reg .one = 1) (hdepth : 0 ≤ depth) (hhigh : s₀.stack + depth.toNat < s₀.memory.size)
    (hsize : s₀.memory.size ≤ 4294967296) (hlow : 61 + (result.words + argumentWords arguments) ≤ low)
    (hvalue : 0 ≤ result.size) (hintegral : result.integral = true)
    (hlabel : image.label? (symbol label) = some entry)
    (harguments : ∀ arg ∈ arguments, ∀ s d low', Reaches image handlers s₀ s →
      s.stack + d.toNat = s₀.stack + depth.toNat → arg.Evaluates image handlers s d low')
    (hcallee : ∀ m, Reaches image handlers s₀ m → m.pc = entry →
      m.stack + (result.words + argumentWords arguments) ≤ s₀.stack →
      ∃ m', Reaches image handlers m m' ∧
        Returns (result.words + argumentWords arguments) (s₀.stack + depth.toNat) m m') :
    (callArgument label arguments result).Evaluates image handlers s₀ depth low := by
  have hhidden : result.isHidden = false := by simp [Result.isHidden, hintegral]
  exact fun r hr => evaluatesAt_callArgument hr hbalanced hone hdepth hhigh hsize hlow hvalue hlabel
    harguments hcallee fun h => absurd (hhidden.symm.trans h) Bool.false_ne_true

end CallArgument

/-! ## A call with arguments of both kinds, one of them a call -/

/-- An argument that loads a word: a value of its own, or the address of `size` words. -/
def constantArgument (size : Int) (integral : Bool) (w : Word) : Argument :=
  { size, integral, compile := allocate >>= fun q => loadWord q w >>= fun _ => pure q }

/-- An argument that loads a word is balanced. -/
theorem isBalanced_constantArgument (size : Int) (integral : Bool) (w : Word) :
    (constantArgument size integral w).IsBalanced := by
  intro r q r' hr h
  simp only [constantArgument, allocate_front, loadWord_front, pure_ok] at h
  obtain ⟨q, p, hq, rfl, rfl⟩ := h
  exact ⟨⟨_, Routine.plus_code _ _⟩, rfl, rfl, .refl _, (Pool.allocate_eq_ok hq).2.2.1 ▸ .refl _,
    hr.valid.allocate hq⟩

/-- An argument that loads a word evaluates, whenever its object lies outside the pushed words. -/
theorem evaluates_constantArgument (image : Image) (handlers : Handlers) {size : Int} {integral : Bool}
    {w : Word} {s₀ : State} {depth : Int} {low : Nat} (hone : s₀.reg .one = 1)
    (hobject : integral = false → w.toNat + size.toNat ≤ s₀.memory.size ∧
      Outside low s₀.stack w.toNat size.toNat) :
    (constantArgument size integral w).Evaluates image handlers s₀ depth low := by
  intro r _ q r' code a s h hcode hp hs₀ hs _ _ _
  simp only [constantArgument, allocate_front, loadWord_front, pure_ok] at h
  obtain ⟨q, p, hq, rfl, rfl⟩ := h
  have htakes := Pool.Takes.of_allocate hq
  obtain rfl : code = [.constant q (.immediate w)] := by
    simpa using hcode.symm
  have hrun := Machine.reaches_constant handlers hp.1 rfl hs htakes.writable (hs₀.one hone)
  have hkeep (x : Register) (hx : x ≠ q) := State.reg_assign_of_ne s q x w (UInt32.ofNat (a + 2)) hx
  refine ⟨_, hrun, rfl, ⟨?_, fun x hx => hkeep x fun h => htakes.new (h ▸ hx), fun _ _ _ => rfl⟩, ?_⟩
  · rw [Nat.add_zero, State.stack, hkeep .sp (Pool.ne_sp_of_mem htakes.mem).symm, State.stack]
  · intro hvalue
    have hvalue : integral = false := hvalue
    have hwords : (constantArgument size integral w).words = size.toNat := by
      simp [Argument.words, constantArgument, hvalue]
    rw [State.reg_assign_self _ _ _ _ htakes.writable.lt, hwords, State.assign_memory, hs₀.size]
    exact hobject hvalue

/-- A function that holds 9 in `r1` and the address of a routine in `r2`. -/
def mixedCaller : Routine :=
  { Routine.function "f" [] false with
    pool := { live := [.ofNat 2, .ofNat 1], ever := [.ofNat 2, .ofNat 1] } }

/-- What a routine of one parameter makes of 7, and an object of ten words at address 100. -/
def mixedArguments : List Argument :=
  [callArgument "h" [constantArgument 1 true 7] .word, constantArgument 10 false 100]

/-- A routine that overwrites its last parameter and returns. -/
def mixedCallee : List Directive := [ins .store [.sp, .one], ins .jmp [.result]]

/-- The routine of one parameter; it returns at once. -/
def mixedHelper : List Directive := [.label "h", ins .jmp [.result]]

/-- The arguments are balanced. -/
theorem isBalanced_mixed : ∀ arg ∈ mixedArguments, arg.IsBalanced := by
  intro arg harg
  simp only [mixedArguments, List.mem_cons, List.not_mem_nil, or_false] at harg
  rcases harg with rfl | rfl
  · refine isBalanced_callArgument fun arg harg => ?_
    obtain rfl := List.mem_singleton.1 harg
    exact isBalanced_constantArgument _ _ _
  · exact isBalanced_constantArgument _ _ _

/-- The arguments can be relied on in every call whose words lie in front of the object and leave room
for the inner call. -/
theorem evaluatesFrom_mixed {image : Image} {b low : Nat} {s : State} {r : Routine}
    (hp : Placed image b mixedHelper) (hsize : s.memory.size = 128) (hone : s.reg .one = 1)
    (hstack : s.stack ≤ 100) (hlow : 62 ≤ low) (hr : Ready r) :
    EvaluatesFrom image [] s 0 low mixedArguments r := by
  refine evaluatesFrom_of_forall image [] hr isBalanced_mixed fun arg harg => ?_
  simp only [mixedArguments, List.mem_cons, List.not_mem_nil, or_false] at harg
  rcases harg with rfl | rfl
  · refine evaluates_callArgument ?_ hone (le_refl 0) ?_ ?_ hlow (by decide) rfl hp.1 ?_ ?_
    · intro arg harg
      obtain rfl := List.mem_singleton.1 harg
      exact isBalanced_constantArgument _ _ _
    · rw [hsize, Int.toNat_zero]
      omega
    · rw [hsize]
      decide
    · intro arg harg s' d low' hrun _
      obtain rfl := List.mem_singleton.1 harg
      exact evaluates_constantArgument image [] (hrun.one hone) (by simp)
    · intro m hm hpc _
      have hrun := Machine.reaches_jmp [] hp.2.1 hpc (by decide) (hm.one hone)
      exact ⟨_, hrun, rfl, rfl, fun _ _ => rfl, fun _ _ _ => rfl⟩
  · refine evaluates_constantArgument image [] hone fun _ => ⟨by rw [hsize]; decide, .inl ?_⟩
    exact hstack

/-- The state in which the call starts; the frame pointer is on the stack. -/
def mixedStart (image : Image) (pc : Word) : State :=
  { registers := ((((Vector.replicate 64 0).set! 1 9).set! 62 1).set! 63 80)
    memory := image.memory
    pc
    interrupted := [] }

/-- The call is generated and assembles behind its callee. -/
theorem mixed_assembles :
    ∃ out r' image, call (.ofNat 2) mixedArguments ⟨2, false⟩ mixedCaller = .ok out r' ∧
      Image.assemble (mixedCallee ++ (mixedHelper ++ r'.code.toList)) 128 = .ok image := by
  have hok : (match call (.ofNat 2) mixedArguments ⟨2, false⟩ mixedCaller with
      | .ok _ r' =>
        (Image.assemble (mixedCallee ++ (mixedHelper ++ r'.code.toList)) 128).toOption.isSome
      | .error _ _ => false) = true := by decide +kernel
  split at hok
  · next out r' hcall =>
    cases himage : Image.assemble (mixedCallee ++ (mixedHelper ++ r'.code.toList)) 128 with
    | error e =>
      rw [himage] at hok
      cases hok
    | ok image => exact ⟨out, r', image, hcall, himage⟩
  · cases hok

/-- The routine in which the arguments are generated is ready. -/
theorem ready_mixed {slot : Option Slot} {r : Routine}
    (h : passResult ⟨2, false⟩ (mixedCaller.saving (.ofNat 2)) = .ok slot r) : Ready r := by
  have hr : Ready mixedCaller := ⟨⟨by decide, by decide, by decide⟩, rfl, by decide⟩
  exact ready_passResult hr h

/-- The call of `mixedCallee` keeps `r1`, the stack pointer and the depth, although the callee
overwrites a word of the copied object, and although another call is made for the first argument. -/
theorem call_protocol_mixed :
    ∃ out r' image t, call (.ofNat 2) mixedArguments ⟨2, false⟩ mixedCaller = .ok out r' ∧
      Image.assemble (mixedCallee ++ (mixedHelper ++ r'.code.toList)) 128 = .ok image ∧
      Reaches image [] (mixedStart image 3) t ∧ t.stack = 80 ∧ t.reg (.ofNat 1) = 9 ∧
      r'.depth = 0 ∧ r'.pool.outstanding = 2 := by
  obtain ⟨out, r', image, hcall, himage⟩ := mixed_assembles
  obtain ⟨-, hle, -⟩ := Machine.assemble_ok himage
  obtain ⟨⟨hstore, hjmp, -⟩, hp⟩ :=
    Machine.placed_append.1 (Machine.placed_of_assemble himage (by omega))
  obtain ⟨hphelper, hp⟩ := Machine.placed_append.1 hp
  have hsize : (mixedStart image 3).memory.size = 128 := Machine.size_memory_of_assemble himage
  have hone : (mixedStart image 3).reg .one = 1 := rfl
  have hstack : (mixedStart image 3).stack = 80 := rfl
  have hpushed : pushedWords mixedCaller.pool (.ofNat 2) mixedArguments ⟨2, false⟩ = 13 := by
    decide
  have hwords : (⟨2, false⟩ : Result).words + argumentWords mixedArguments = 12 := by decide
  have hreturns (m : State) (hm : Reaches image [] (mixedStart image 3) m)
      (hpc : m.pc = (mixedStart image 3).reg (.ofNat 2)) (hroom : m.stack + 13 = 80) :
      ∃ m', Reaches image [] m m' ∧ Returns 12 80 m m' := by
    have hrun₁ := Machine.reaches_store [] hstore hpc
      (by change m.stack < m.memory.size; rw [hm.size, hsize]; omega) (by decide) (by decide)
      (hm.one hone)
    have hrun₂ := Machine.reaches_jmp [] hjmp rfl (by decide) (hrun₁.one (hm.one hone))
    refine ⟨_, hrun₁.trans hrun₂, rfl, rfl, fun _ _ => rfl, fun x hx _ => ?_⟩
    exact State.word_put_of_ne _ _ _ _ _ (by change x ≠ m.stack; omega)
  obtain ⟨hdepth, hlength, -, m, m', t, hrun₁, -, hrun₂, hrun₃, -, hsp, hregs, -⟩ :=
    call_protocol [] (s := mixedStart image 3) (r := mixedCaller) (a := 3)
      ⟨by decide, by decide, by decide⟩ (by decide) (by decide) isBalanced_mixed hcall rfl hp rfl hone
      ⟨fun _ => by rw [hsize, frameSlot, hstack]; decide, by rw [hsize]; decide⟩
      (by rw [hsize, hstack]; decide) (by rw [hpushed, hstack]; decide)
      (fun slot r₁ hslot => evaluatesFrom_mixed hphelper hsize hone (by rw [hstack]; decide)
        (by rw [hpushed, hstack]; decide) (ready_mixed hslot))
      (by rw [hpushed, hwords]; exact hreturns)
  refine ⟨out, r', image, t, hcall, himage, hrun₁.trans (hrun₂.trans hrun₃), ?_, ?_, hdepth, hlength⟩
  · rw [State.stack, hsp]
    rfl
  · rw [hregs (.ofNat 1) (by decide) (by decide)]
    rfl

end Qll.Codegen
