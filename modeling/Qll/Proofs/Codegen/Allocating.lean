import Qll.Proofs.Codegen.Indexing
import Qll.Proofs.Codegen.StructFields

/-!
# Allocation of slices

The code that allocates `n` elements asks the allocation function for `n` times the size of an
element, multiplied in machine words, and describes what it is given as a slice of length and
capacity `n`. The request is the product itself exactly if that is below 2^32, and exactly then every
index that the bounds check accepts lies in the block.
-/

namespace Qll.Codegen

open Assembly (Directive totalSize)
open Check (Storage)
open Checked (Expr)
open Machine (Register Word Image Handlers State Placed Reaches addExtent wrap ins pushCode)
open Qll.Types (Ty sliceSize)
open Qll.Computation

/-! ## The size of a request -/

/-- A block of `words` words has room for every element of `k` words with an index that the bounds
check of a slice of length `n` accepts. -/
def Covers (words n : Word) (k : Nat) : Prop := ∀ i : Nat, i < n.toNat → i * k + k ≤ words.toNat

/-- The product of a count of elements and their size, as the machine computes it. -/
theorem toNat_request {n : Word} {k : Nat} (hk : k < 4294967296) :
    (n * UInt32.ofNat k).toNat = n.toNat * k % 4294967296 := by
  rw [UInt32.toNat_mul, UInt32.toNat_ofNat_of_lt' (by rw [UInt32.size]; exact hk)]

/-- The machine computes the product itself exactly if that fits a word. -/
theorem request_exact_iff {n : Word} {k : Nat} (hk : k < 4294967296) :
    (n * UInt32.ofNat k).toNat = n.toNat * k ↔ n.toNat * k < 4294967296 := by
  rw [toNat_request hk]
  exact ⟨fun h => h ▸ Nat.mod_lt _ (by decide), Nat.mod_eq_of_lt⟩

/-- A block of the computed size has room for all elements exactly if their number of words fits a
word. Otherwise the last element is not in the block. -/
theorem covers_request_iff {n : Word} {k : Nat} (hk : k < 4294967296) :
    Covers (n * UInt32.ofNat k) n k ↔ n.toNat * k < 4294967296 := by
  rw [Covers, toNat_request hk]
  constructor
  · intro hcovers
    by_contra hlarge
    have hpos : 0 < n.toNat := by
      refine Nat.pos_of_ne_zero fun hzero => hlarge ?_
      rw [hzero, Nat.zero_mul]
      decide
    have hlast : (n.toNat - 1) * k + k = n.toNat * k := by
      rw [← Nat.succ_mul, Nat.succ_eq_add_one, Nat.sub_add_cancel hpos]
    have hle := hcovers (n.toNat - 1) (by omega)
    have hlt := Nat.mod_lt (n.toNat * k) (show 0 < 4294967296 by decide)
    omega
  · intro hsmall i hi
    rw [Nat.mod_eq_of_lt hsmall, ← Nat.succ_mul]
    exact Nat.mul_le_mul_right k hi

/-- The request of the machine for `n` elements of `k` words. -/
structure Requests (words n : Word) (k : Nat) : Prop where
  product : words = n * UInt32.ofNat k
  exact_iff : words.toNat = n.toNat * k ↔ n.toNat * k < 4294967296
  covers_iff : Covers words n k ↔ n.toNat * k < 4294967296

/-- The product is such a request. -/
theorem Requests.of_eq {words n : Word} {k : Nat} (hk : k < 4294967296)
    (h : words = n * UInt32.ofNat k) : Requests words n k := by
  subst h
  exact ⟨rfl, request_exact_iff hk, covers_request_iff hk⟩

/-! ## The argument of the request -/

section Argument

variable {r r' : Routine} {n q : Register} {size : Int} {u : Unit}

/-- A count of elements as a count of words, in a register of its own. -/
def scaledCopy (n : Register) (size : Int) : Gen Register := do
  let q ← allocate
  emit .mov [q, n]
  scale q size
  return q

/-- A size that elements are scaled by fits a word. -/
theorem scale_bound (h : scale q size r = .ok u r') : size < 4294967296 := by
  unfold scale at h
  by_cases hone : size = 1
  · omega
  · simp only [hone, ↓reduceIte, allocate_front, loadCount_front] at h
    obtain ⟨-, -, -, -, hhigh, -⟩ := h
    exact hhigh

/-- The number of words is computed in a new register. -/
theorem scaledCopy_runs (hvalid : r.pool.Valid) (h : scaledCopy n size r = .ok q r') :
    size < 4294967296 ∧ r.pool.Takes r'.pool q ∧ ∃ code, r' = (r.plus code).withPool r'.pool ∧
      ∀ image handlers, n.toNat < 64 → Runs image handlers code (fun _ => True) fun s t =>
        t.reg q = s.reg n * UInt32.ofNat size.toNat ∧
          (∀ x, x ∉ r.pool.free → t.reg x = s.reg x) ∧ t.memory = s.memory := by
  simp only [scaledCopy, allocate_front, emit_front] at h
  obtain ⟨x, p, hx, -, h⟩ := h
  rw [bind_ok] at h
  obtain ⟨_, r₁, hscale, h⟩ := h
  obtain ⟨rfl, rfl⟩ := pure_ok.1 h
  have htakes := Pool.Takes.of_allocate hx
  obtain ⟨hkept, code, hr₁, hruns⟩ := scale_runs (htakes.valid hvalid) htakes.mem_live hscale
  refine ⟨scale_bound hscale, htakes.kept hkept, ins .mov [x, n] :: code, ?_, ?_⟩
  · rw [hr₁]
    simp
  rintro image handlers hn a s ⟨hmov, hp⟩ hs hone -
  have hrun₁ := Machine.reaches_mov handlers hmov hs htakes.writable hn hone
  obtain ⟨t, hrun₂, hpc, hq, hreg, hmemory⟩ :=
    hruns image handlers _ _ hp rfl (hrun₁.one hone) trivial
  refine ⟨t, hrun₁.trans hrun₂, ?_, ?_, fun y hy => ?_, hmemory⟩
  · rw [hpc, Machine.totalSize_cons, Nat.add_assoc]
  · rw [hq, State.reg_assign_self _ _ _ _ htakes.writable.lt]
  · have hfree := Pool.free_of_allocate hx
    have hne : y ≠ x := fun heq => hy (heq ▸ hfree ▸ List.mem_cons_self)
    rw [hreg y (fun hmem => hy (hfree ▸ List.mem_cons_of_mem x hmem)) hne,
      State.reg_assign_of_ne _ _ _ _ _ hne]

/-- The number of words is an argument with the balance of an expression. -/
theorem isBalanced_scaledCopy (n : Register) (size : Int) :
    (wordArgument (scaledCopy n size)).IsBalanced := by
  intro r q r' hr h
  obtain ⟨-, htakes, code, hr', -⟩ := scaledCopy_runs hr.valid h
  have hext := Extends.of_pool hr'
  exact ⟨⟨code, hext.code⟩, hext.name, hext.depth, Frame.sameKind_of_homes hext.homes,
    htakes.live ▸ .refl _, htakes.valid hr.valid⟩

end Argument

/-! ## The call -/

/-- A call saves at most the registers in use other than that of the callee. -/
theorem length_savedRegisters_lt {p : Pool} {callee : Register} (hvalid : p.Valid)
    (hcallee : callee ∈ p.live) : (savedRegisters p callee).length < p.outstanding := by
  have hsubset : savedRegisters p callee ⊆ p.live.erase callee := fun q hq => by
    obtain ⟨hlive, -, hne⟩ := (mem_savedRegisters hvalid).1 hq
    exact (List.mem_erase_of_ne hne).2 hlive
  have hle := ((nodup_savedRegisters p callee).subperm hsubset).length_le
  have hpos := List.length_pos_of_mem hcallee
  rw [List.length_erase_of_mem hcallee] at hle
  rw [Pool.outstanding]
  omega

/-- The code of a call up to the jump leaves the number of words on top of the stack. -/
theorem prepareRequest_runs (image : Image) (handlers : Handlers) {r r₂ : Routine}
    {callee n : Register} {size words : Int} (hr : Ready r) (hn : n ∈ r.pool.live)
    (hpass : passArguments [wordArgument (scaledCopy n size)] 0 (r.saving callee) = .ok words r₂) :
    size < 4294967296 ∧ words = (1 : Nat) ∧ ∃ front,
      Prepares r r₂ ((savedRegisters r.pool callee).length + 1) front ∧
      ∀ a s, Placed image a front → s.pc = UInt32.ofNat a → s.reg .one = 1 →
        (savedRegisters r.pool callee).length + 1 ≤ s.stack → s.stack ≤ s.memory.size →
        s.memory.size ≤ 4294967296 →
        ∃ t, Reaches image handlers s t ∧ t.pc = UInt32.ofNat (a + totalSize front) ∧
          Prepared r callee ((savedRegisters r.pool callee).length + 1) s t ∧
          t.word t.stack = s.reg n * UInt32.ofNat size.toNat := by
  -- `prepare_runs` says what arguments deliver, but not in terms of a register in use in front of the
  -- call, so the three parts of the code are followed here.
  simp only [passArguments, bind_ok, pure_ok] at hpass
  obtain ⟨w, r₃, hpass, rfl, rfl⟩ := hpass
  have hvalid := hr.valid
  have hsaving : Prepares r (r.saving callee) _ _ := saving_prepares hr
  obtain ⟨q, r₁, own, rest, hcompile, hown, rfl, hprepares, hrest⟩ :=
    passArgument_runs image handlers (hsaving.ready hr) (isBalanced_scaledCopy n size) hpass
  obtain ⟨hsize, htakes, code, hr₁, hruns⟩ := scaledCopy_runs hsaving.valid hcompile
  obtain rfl : own = code := (Extends.of_pool hr₁).unique hown
  have hwords : (wordArgument (scaledCopy n size)).words = 1 := rfl
  rw [hwords] at hprepares hrest ⊢
  refine ⟨hsize, by decide, _, hsaving.trans hprepares, ?_⟩
  intro a s hp hs hone hroom hhigh hlimit
  simp only [Machine.placed_append, Machine.totalSize_append] at hp ⊢
  obtain ⟨hpsaves, hpown, hprest⟩ := hp
  obtain ⟨s₁, hrun₁, hpc₁, h₁⟩ :=
    pushSaved_runs image handlers hvalid a s hpsaves hs hone ⟨by omega, hhigh⟩
  have hstack₁ := h₁.stack
  obtain ⟨s₂, hrun₂, hpc₂, hq₂, hreg₂, hmemory₂⟩ := hruns image handlers
    (Pool.writable_of_mem (hvalid.allocatable hn)).lt _ s₁ hpown hpc₁ (hrun₁.one hone) trivial
  have hsp₂ : s₂.reg .sp = s₁.reg .sp :=
    hreg₂ .sp (Pool.withholds_of_reserved (.inr (.inr rfl))).notFree
  have h₂ (top : Nat) : Pushes 0 r.pool.live top s₁ s₂ :=
    ⟨congrArg UInt32.toNat hsp₂, fun x hx => hreg₂ x (hvalid.withholds hx).notFree,
      fun x _ _ => by rw [State.word_eq_of_memory hmemory₂]⟩
  have hstack₂ := (h₂ 0).stack
  have hsize₂ : s₂.memory.size = s.memory.size := (hrun₁.trans hrun₂).size
  obtain ⟨t, hrun₃, hpc₃, h₃, hdelivers⟩ := hrest _ s₂ hprest hpc₂ ((hrun₁.trans hrun₂).one hone)
    ⟨by omega, by omega, by omega, by simp [wordArgument]⟩
  refine ⟨t, hrun₁.trans (hrun₂.trans hrun₃), ?_, (h₁.more (le_refl _) (h₂ _)).more (by omega) (h₃ _), ?_⟩
  · rw [hpc₃, Nat.add_assoc, Nat.add_assoc]
  · have hword : t.word t.stack = s₂.reg q := hdelivers 0 (by decide)
    rw [hword, hq₂, h₁.reg n hn]

/-- A request: the allocation function is entered with the number of words on top of the stack, and
what it returns is in a new register. -/
theorem callRequest_runs (image : Image) (handlers : Handlers) {r r' : Routine}
    {callee n out : Register} {size : Int} (hr : Ready r) (hn : n ∈ r.pool.live)
    (hcall : call callee [wordArgument (scaledCopy n size)] .word r = .ok out r') :
    size < 4294967296 ∧ ∃ code, Exchanges r r' callee out code ∧
      ∀ a s, Placed image a code → s.pc = UInt32.ofNat a → s.reg .one = 1 → Framed r s →
        0 ≤ r.depth → s.stack + r.depth.toNat ≤ s.memory.size → r.pool.outstanding ≤ s.stack →
        ∃ m, Reaches image handlers s m ∧ m.pc = s.reg callee ∧
          m.word m.stack = s.reg n * UInt32.ofNat size.toNat ∧
          ∀ m', Reaches image handlers m m' → Returns 1 (s.stack + r.depth.toNat) m m' →
            ∃ t, Reaches image handlers m' t ∧ t.pc = UInt32.ofNat (a + totalSize code) ∧
              t.reg .sp = s.reg .sp ∧ t.word (frameSlot r s) = s.word (frameSlot r s) ∧
              (∀ q ∈ r.pool.live, q ≠ callee → t.reg q = s.reg q) ∧
              t.reg out = m'.reg .result := by
  obtain ⟨slot, r₁, words, r₂, p, r₃, r₄, hslot, hwords, hrelease, hdrop, hpops, hresult⟩ :=
    call_ok hr.depth hcall
  obtain ⟨hnone, rfl⟩ := pure_ok.1 hslot
  obtain ⟨hsize, rfl, front, hprepares, hprepare⟩ := prepareRequest_runs image handlers hr hn hwords
  obtain ⟨rest, hexchanges, hfinish⟩ :=
    finishCall_runs image handlers hr hprepares hrelease hdrop hpops hresult
  refine ⟨hsize, front ++ rest, hexchanges, ?_⟩
  intro a s hp hs hone hframed hdepth hhigh hroom
  obtain ⟨hpfront, hprest⟩ := Machine.placed_append.1 hp
  have hsaved := length_savedRegisters_lt hr.valid hexchanges.mem
  obtain ⟨s₁, hrun₁, hpc₁, h₁, hrequest⟩ :=
    hprepare a s hpfront hs hone (by omega) (by omega) hframed.2
  obtain ⟨m, hrun₂, hmpc, hmstack, hmword, hback⟩ :=
    hfinish hprest (hrun₁.one hone) ⟨hframed, hdepth, hhigh, by omega⟩ hrun₁.size hpc₁ h₁
  refine ⟨m, hrun₁.trans hrun₂, hmpc, by rw [hmword, hmstack, hrequest], fun m' hm' hreturns => ?_⟩
  obtain ⟨t, hrun₃, htpc, hsp, -, hkept, hregs, hout, -⟩ := hback m' hm' hreturns
  exact ⟨t, hrun₃, htpc, hsp, hkept _ (Nat.le_add_right _ _) (Nat.le_refl _), hregs, hout hnone.symm⟩

/-! ## The descriptor -/

section Descriptor

variable {r r' : Routine} {n p q : Register}

/-- A descriptor is written in a temporary: the address in `p`, and the number of elements in `n` as
length and capacity. -/
def describeBlock (n p : Register) : Gen Register := do
  let slot ← temporary sliceSize
  let addr ← slotAddress slot
  emit .store [addr, p]
  release p
  storeDescriptor addr n
  release addr
  release n
  slotAddress slot

/-- Writing the descriptor changes its three words and leaves its address. -/
theorem describeBlock_runs (image : Image) (handlers : Handlers) (hvalid : r.pool.Valid)
    (hn : n ∈ r.pool.live) (hp : p ∈ r.pool.live)
    (h : describeBlock n p r = .ok q r') :
    ∃ slot r₁, temporary sliceSize r = .ok slot r₁ ∧ r'.pool.Valid ∧
      r'.pool.live = q :: (r.pool.live.erase p).erase n ∧ ∃ code, Extends r r' code ∧
      Runs image handlers code
        (fun s => Framed r s ∧ (slotWord image r slot s).toNat + 3 ≤ s.memory.size ∧
          (frameSlot r s < (slotWord image r slot s).toNat ∨
            (slotWord image r slot s).toNat + 3 ≤ frameSlot r s))
        fun s t => t.reg q = slotWord image r slot s ∧
          (∀ x, t.word x = if x = (slotWord image r slot s).toNat + 1 ∨
              x = (slotWord image r slot s).toNat + 2 then s.reg n
            else if x = (slotWord image r slot s).toNat then s.reg p else s.word x) ∧
          ∀ x, x ∈ (r.pool.live.erase p).erase n ∨ x = .sp → t.reg x = s.reg x := by
  unfold describeBlock at h
  rw [bind_ok] at h
  obtain ⟨slot, r₁, htemporary, h⟩ := h
  rw [bind_ok] at h
  obtain ⟨addr, r₂, haddr, h⟩ := h
  simp only [emit_front, release_front] at h
  obtain ⟨-, p₁, hp₁, h⟩ := h
  rw [bind_ok] at h
  obtain ⟨_, r₃, hstore, h⟩ := h
  simp only [release_front] at h
  obtain ⟨p₂, hp₂, p₃, hp₃, h⟩ := h
  obtain ⟨hext₁, hpool⟩ := Extends.temporary htemporary
  obtain ⟨htakes₂, codeA, -⟩ := slotAddress_runs image handlers haddr
  rw [hpool] at htakes₂
  have hpaddr : p ≠ addr := fun heq => htakes₂.new (heq ▸ hp)
  have hnaddr : n ≠ addr := fun heq => htakes₂.new (heq ▸ hn)
  obtain ⟨codeS, hr₃, hrunS⟩ := storeDescriptor_runs htakes₂.writable
    (Pool.writable_of_mem (hvalid.allocatable hn)).lt hnaddr hstore
  rw [hr₃] at hp₂
  -- The registers: the address without `p`, then neither that nor `n`.
  have hpool₁ : p₁.live = addr :: r.pool.live.erase p := by
    rw [(Pool.release_eq_ok hp₁).2, Routine.plus_pool, htakes₂.live,
      List.erase_cons_tail (by simpa using hpaddr.symm)]
  have hpool₃ : p₃.live = (r.pool.live.erase p).erase n := by
    rw [(Pool.release_eq_ok hp₃).2, Routine.withPool_pool, (Pool.release_eq_ok hp₂).2,
      Routine.plus_pool, Routine.withPool_pool, hpool₁, List.erase_cons_head]
  have hvalid₃ : p₃.Valid := (((htakes₂.valid hvalid).release hp₁).release hp₂).release hp₃
  have hext : Extends r₂ ((r₃.withPool p₂).withPool p₃) (ins .store [addr, p] :: codeS) := by
    refine .of_pool (p := p₃) ?_
    rw [hr₃]
    simp
  have hdescribes := describeRegister_runs htakes₂.writable
    (Pool.writable_of_mem (hvalid.allocatable hp)).lt (hrunS image handlers)
  have hsub : (r.pool.live.erase p).erase n ⊆ r.pool.live := fun x hx =>
    List.mem_of_mem_erase (List.mem_of_mem_erase hx)
  have hkept {x : Register} (hx : x ∈ p₃.live ∨ x = .sp) : x ≠ addr := by
    rw [hpool₃] at hx
    obtain hx | rfl := hx
    · exact fun heq => htakes₂.new (heq ▸ hsub hx)
    · exact (Pool.ne_sp_of_mem htakes₂.mem).symm
  obtain ⟨htakes, code, hextends, hruns⟩ := describeSlot_runs image handlers (·.reg p)
    (·.reg n) (hpool ▸ hvalid) haddr hext hvalid₃
    (by rw [Routine.withPool_pool, hpool₃, hpool]; exact hsub)
    (fun a s hp hs hone hpre => by
      obtain ⟨t, hrun, hpc, hword, hreg⟩ := hdescribes a s hp hs hone hpre
      exact ⟨t, hrun, hpc, hword, fun y hy => hreg y (hkept hy)⟩)
    (fun s t hsame => ⟨hsame p (hpool ▸ hp), hsame n (hpool ▸ hn)⟩) h
  rw [Routine.withPool_pool] at htakes hruns
  rw [hpool₃] at hruns
  refine ⟨slot, r₁, htemporary, htakes.valid hvalid₃, by rw [htakes.live, hpool₃], code,
    hext₁.trans hextends, fun a s hplaced hs hone ⟨hframed, hin, hout⟩ => ?_⟩
  -- Making room for the temporary leaves the frame where it is.
  have hkind := Frame.sameKind_of_homes hext₁.homes
  have hslot : frameSlot r₁ s = frameSlot r s := by rw [frameSlot, frameSlot, hext₁.depth]
  have hword : slotWord image r₁ slot s = slotWord image r slot s :=
    slotWord_congr image hkind (by rw [hslot])
  obtain ⟨t, hrun, hpc, ht⟩ := hruns a s hplaced hs hone
    ⟨hframed.congr hkind hslot rfl, by rw [hword]; exact hin, by rw [hword, hslot]; exact hout⟩
  rw [hword] at ht
  exact ⟨t, hrun, hpc, ht⟩

end Descriptor

/-! ## Slices on the heap -/

section Slices

variable {image : Image} (handlers : Handlers) {shapes : Shapes} {element : Ty} {alloc : Storage}
  {count : Expr} {lvalue : Bool} {r r' : Routine} {s : State} {k low high : Nat} {c d : Word}
  {n p q : Register}

/-- The request for the elements of a slice, with the registers of their number and of the block. -/
def requestBlock (shapes : Shapes) (count : Expr) (alloc : Storage) (size : Int) :
    Gen (Register × Register) := do
  let n ← compileExpr shapes count false
  let callee ← address alloc
  let p ← call callee [wordArgument (scaledCopy n size)] .word
  return (n, p)

/-- An allocation is a request and a descriptor. -/
theorem compileExpr_newSlice (hsize : shapes.size element = .ok (k : Int)) :
    compileExpr shapes (.new (some (element, alloc)) (some count)) lvalue =
      requestBlock shapes count alloc k >>= fun block => describeBlock block.1 block.2 := by
  simp only [compileExpr, filledIn, hsize, orFault, pure_bind, requestBlock, bind_assoc]
  rfl

/-- The allocation function is entered with the product of number and size on top of the stack. When
it returns, the number is where it was, and the address of the block is in another register. -/
theorem requestBlock_runs (hvalid : r.pool.Valid) (hname : symbol r.name = r.name)
    (hdepth : 0 ≤ r.depth) (hframed : Framed r s) (hhigh : s.stack + r.depth.toNat ≤ s.memory.size)
    (hroom : r.pool.outstanding + 2 ≤ s.stack) (hstatic : alloc.kind.isStatic = true)
    (hcount : OperandAt image handlers r s low high r (compileExpr shapes count false)
      fun _ _ v => v = c)
    (h : requestBlock shapes count alloc k r = .ok (n, p) r') :
    k < 4294967296 ∧ r'.depth = r.depth ∧ SameKind r.frame r'.frame ∧ r'.pool.Valid ∧
      r'.pool.live.Perm (p :: n :: r.pool.live) ∧
      ∃ code, r'.code.toList = r.code.toList ++ code ∧
      ∀ a, Placed image a code → s.pc = UInt32.ofNat a → s.reg .one = 1 →
        ∃ m, Reaches image handlers s m ∧
          m.pc = Image.resolve image.labels (symbol alloc.qualified) ∧
          m.word m.stack = c * UInt32.ofNat k ∧
          ∀ m', Reaches image handlers m m' → Returns 1 (s.stack + r.depth.toNat) m m' →
            ∃ t, Reaches image handlers m' t ∧ t.pc = UInt32.ofNat (a + totalSize code) ∧
              Steady r s t ∧ t.reg n = c ∧ t.reg p = m'.reg .result := by
  unfold requestBlock at h
  rw [bind_ok] at h
  obtain ⟨n', r₁, hn, h⟩ := h
  rw [bind_ok] at h
  obtain ⟨callee, r₂, haddress, h⟩ := h
  rw [bind_ok] at h
  obtain ⟨p', r₃, hcall, h⟩ := h
  obtain ⟨heq, rfl⟩ := pure_ok.1 h
  cases heq
  obtain ⟨codeN, hyields, hrunN⟩ := hcount n r₁ hvalid (.refl r) hn
  obtain ⟨htakes, codeA, hr₂, hrunA⟩ := address_runs image handlers haddress
  have hext : Extends r r₂ (codeN ++ codeA) := hyields.toExtends.trans (.of_pool hr₂)
  have hlimit := hframed.2
  have hwrap : wrap r₂.depth = r₂.depth := by
    rw [hext.depth]
    exact Machine.wrap_of_bounds (by omega) (by omega)
  obtain ⟨hsize, codeC, hexchanges, hrunC⟩ := callRequest_runs image handlers
    ⟨htakes.valid hyields.valid, hwrap, hext.name ▸ hname⟩ (htakes.live_subset n hyields.mem_live) hcall
  have hlive₃ := hexchanges.live
  have hlive₂ : r₂.pool.live.erase callee = r₁.pool.live := by
    rw [htakes.live, List.erase_cons_head]
  rw [hlive₂] at hlive₃
  have houtstanding : r₂.pool.outstanding = r.pool.outstanding + 2 := by
    rw [Pool.outstanding, htakes.live, List.length_cons, hyields.live.length_eq, List.length_cons,
      Pool.outstanding]
  refine ⟨by omega, hexchanges.depth.trans hext.depth,
    (Frame.sameKind_of_homes hext.homes).trans hexchanges.frame, hexchanges.valid,
    hlive₃.trans (hyields.live.cons p), (codeN ++ codeA) ++ codeC, ?_, ?_⟩
  · rw [hexchanges.code, hext.code, List.append_assoc]
  intro a hp hs hone
  simp only [Machine.placed_append, Machine.totalSize_append, ← Nat.add_assoc] at hp ⊢
  obtain ⟨⟨hpN, hpA⟩, hpC⟩ := hp
  obtain ⟨m₁, hrun₁, hpc₁, hsteady, hvalue⟩ := hrunN a s hpN hs hone (.refl r s)
  have hslot₁ : frameSlot r₁ m₁ = frameSlot r s := by
    rw [frameSlot, frameSlot, hsteady.stack, hyields.depth]
  obtain ⟨m₂, hrun₂, hpc₂, hcallee, hreg₂, hmemory₂, -⟩ := hrunA _ m₁ hpA hpc₁ (hrun₁.one hone)
    (hframed.congr (Frame.sameKind_of_homes hyields.homes) hslot₁ hrun₁.size)
  rw [storageWord, if_pos hstatic] at hcallee
  have hrun := hrun₁.trans hrun₂
  have hstack₂ : m₂.stack = s.stack := by
    rw [State.stack, hreg₂ .sp (.sp (htakes.valid hyields.valid)), ← State.stack, hsteady.stack]
  have hslot₂ : frameSlot r₂ m₂ = frameSlot r s := by
    rw [frameSlot, frameSlot, hstack₂, hext.depth]
  obtain ⟨m, hrun₃, hmpc, hrequest, hback⟩ := hrunC _ m₂ hpC hpc₂ (hrun.one hone)
    (hframed.congr (Frame.sameKind_of_homes hext.homes) hslot₂ hrun.size)
    (by rw [hext.depth]; exact hdepth) (by rw [hext.depth, hstack₂, hrun.size]; exact hhigh)
    (by rw [houtstanding, hstack₂]; exact hroom)
  refine ⟨m, hrun.trans hrun₃, hmpc.trans hcallee, ?_, fun m' hm' hreturns => ?_⟩
  · rw [hrequest, hreg₂ n (.inl hyields.mem_live), hvalue, Int.toNat_natCast]
  obtain ⟨t, hrun₄, hpc, hsp, hframe, hregs, hout⟩ :=
    hback m' hm' (by rw [hstack₂, hext.depth]; exact hreturns)
  have hlive {x : Register} (hx : x ∈ r₁.pool.live) : t.reg x = m₁.reg x := by
    rw [hregs x (htakes.live_subset x hx) (fun heq => htakes.new (heq ▸ hx)), hreg₂ x (.inl hx)]
  refine ⟨t, hrun₄, hpc, ⟨?_, fun x hx => ?_, ?_⟩, ?_, hout⟩
  · rw [State.stack, hsp, ← State.stack, hstack₂]
  · rw [hlive (hyields.live_subset x hx), hsteady.reg x hx]
  · rw [← hslot₂, hframe, State.word_eq_of_memory hmemory₂, hslot₂, hsteady.frame]
  · rw [hlive hyields.mem_live, hvalue]

/-- The code of `new T[n]` for elements of `k` words enters the allocation function with a request for
`n` times `k` words. When that returns, a slice of length and capacity `n` at the block it gives is left
in a temporary. The request is the product itself, and has room for every element with an index below
the length, exactly if the product fits a word of the machine. -/
theorem slice_allocation (hvalid : r.pool.Valid) (hname : symbol r.name = r.name)
    (hdepth : 0 ≤ r.depth) (hframed : Framed r s) (hhigh : s.stack + r.depth.toNat ≤ s.memory.size)
    (hroom : r.pool.outstanding + 2 ≤ s.stack) (hstatic : alloc.kind.isStatic = true)
    (hsize : shapes.size element = .ok (k : Int))
    (hcount : OperandAt image handlers r s low high r (compileExpr shapes count false)
      fun _ _ v => v = c)
    (hslot : ∀ n p r₁ slot r₂, requestBlock shapes count alloc k r = .ok (n, p) r₁ →
      temporary sliceSize r₁ = .ok slot r₂ → slotWord image r slot s = d)
    (hin : d.toNat + 3 ≤ s.memory.size)
    (hout : frameSlot r s < d.toNat ∨ d.toNat + 3 ≤ frameSlot r s)
    (h : compileExpr shapes (.new (some (element, alloc)) (some count)) lvalue r = .ok q r') :
    ∃ code, r'.code.toList = r.code.toList ++ code ∧
      ∀ a, Placed image a code → s.pc = UInt32.ofNat a → s.reg .one = 1 →
        ∃ m, Reaches image handlers s m ∧
          m.pc = Image.resolve image.labels (symbol alloc.qualified) ∧
          Requests (m.word m.stack) c k ∧
          ∀ m', Reaches image handlers m m' → Returns 1 (s.stack + r.depth.toNat) m m' →
            ∃ t, Reaches image handlers m' t ∧ t.pc = UInt32.ofNat (a + totalSize code) ∧
              Steady r s t ∧ t.reg q = d ∧ t.word d.toNat = m'.reg .result ∧
              t.word (d.toNat + 1) = c ∧ t.word (d.toNat + 2) = c := by
  rw [compileExpr_newSlice hsize, bind_ok] at h
  obtain ⟨⟨n, p⟩, r₁, hrequest, hdescribe⟩ := h
  obtain ⟨hk, hdepth₁, hkind, hvalid₁, hlive, codeR, hcodeR, hrunR⟩ :=
    requestBlock_runs handlers hvalid hname hdepth hframed hhigh hroom hstatic hcount hrequest
  obtain ⟨slot, r₂, htemporary, -, -, codeD, hext, hrunD⟩ := describeBlock_runs image handlers hvalid₁
    (hlive.symm.subset (by simp)) (hlive.symm.subset (by simp)) hdescribe
  refine ⟨codeR ++ codeD, by rw [hext.code, hcodeR, List.append_assoc], fun a hp hs hone => ?_⟩
  obtain ⟨hpR, hpD⟩ := Machine.placed_append.1 hp
  obtain ⟨m, hrun₁, hmpc, hproduct, hback⟩ := hrunR a hpR hs hone
  refine ⟨m, hrun₁, hmpc, .of_eq hk hproduct, fun m' hm' hreturns => ?_⟩
  obtain ⟨u, hrun₂, hpc₂, hsteady, hn, hp'⟩ := hback m' hm' hreturns
  have hrun := hrun₁.trans (hm'.trans hrun₂)
  have hslot₂ : frameSlot r₁ u = frameSlot r s := by
    rw [frameSlot, frameSlot, hsteady.stack, hdepth₁]
  have hd : slotWord image r₁ slot u = d := by
    rw [slotWord_congr image hkind (by rw [hslot₂, hsteady.frame])]
    exact hslot n p r₁ slot r₂ hrequest htemporary
  obtain ⟨t, hrun₃, hpc₃, hq, hword, hregs⟩ := hrunD _ u hpD hpc₂ (hrun.one hone)
    (by
      simp only [hd, hslot₂, hrun.size]
      exact ⟨hframed.congr hkind hslot₂ hrun.size, hin, hout⟩)
  simp only [hd, hn, hp'] at hq hword hregs
  have herase : ((r₁.pool.live.erase p).erase n).Perm r.pool.live := by
    simpa using (hlive.erase p).erase n
  refine ⟨t, hrun₂.trans hrun₃, ?_, ⟨?_, fun x hx => ?_, ?_⟩, hq, ?_, ?_, ?_⟩
  · rw [hpc₃, Machine.totalSize_append, Nat.add_assoc]
  · rw [State.stack, hregs .sp (.inr rfl), ← State.stack, hsteady.stack]
  · rw [hregs x (.inl (herase.symm.subset hx)), hsteady.reg x hx]
  · rw [hword, if_neg (by omega), if_neg (by omega), hsteady.frame]
  · rw [hword, if_neg (by omega), if_pos rfl]
  · rw [hword, if_pos (.inl rfl)]
  · rw [hword, if_pos (.inr rfl)]

end Slices

/-- An allocation function. -/
def allocator : Storage :=
  { id := 0, name := "alloc", qualified := "global::alloc", type := .byte, kind := .function
    location := none }

/-- The code of an allocation function that always gives the address 57. -/
def allocatorCode : List Directive :=
  [ins .mov [.ofNat 1, .result], .constant .result (.immediate 57), ins .jmp [.ofNat 1]]

/-- The allocation function returns. -/
theorem allocatorCode_returns {image : Image} (handlers : Handlers) {a : Nat} {m : State}
    (hp : Placed image a allocatorCode) (hm : m.pc = UInt32.ofNat a) (hone : m.reg .one = 1)
    (top : Nat) :
    ∃ m', Reaches image handlers m m' ∧ Returns 1 top m m' ∧ m'.reg .result = 57 := by
  obtain ⟨hmov, hconstant, hjmp, -⟩ := hp
  have hwritable : (Register.ofNat 1).Writable := Register.writable_of_lt (by decide)
  have hrun₁ := Machine.reaches_mov handlers hmov hm hwritable (by decide) hone
  have hrun₂ := Machine.reaches_constant handlers hconstant rfl rfl Register.writable_result
    (hrun₁.one hone)
  have hrun₃ := Machine.reaches_jmp handlers hjmp rfl hwritable.lt ((hrun₁.trans hrun₂).one hone)
  rw [State.reg_assign_of_ne _ _ _ _ _ (by decide), State.reg_assign_self _ _ _ _ hwritable.lt]
    at hrun₃
  refine ⟨_, hrun₁.trans (hrun₂.trans hrun₃), ⟨rfl, ?_, fun x hx => ?_, fun _ _ _ => rfl⟩, ?_⟩
  · rw [State.goto_reg, State.reg_assign_of_ne _ _ _ _ _ (by decide),
      State.reg_assign_of_ne _ _ _ _ _ (by decide)]
  · have hresult : x ≠ .result := by
      rintro rfl
      cases hx
    have hone : x ≠ .ofNat 1 := by
      rintro rfl
      cases hx
    rw [State.goto_reg, State.reg_assign_of_ne _ _ _ _ _ hresult,
      State.reg_assign_of_ne _ _ _ _ _ hone]
  · rw [State.goto_reg, State.reg_assign_self _ _ _ _ (by decide)]

/-- Elements of two bytes are allocated; the code of the allocation function stands behind. -/
def allocatePairs (count : Word) : Gen Register := do
  let q ← compileExpr (.ofStore {})
    (.new (some (.array .byte 2 none, allocator)) (some (.integer count))) false
  modify fun r => r.plus (.label (symbol allocator.qualified) :: allocatorCode)
  return q

/-- Six words are asked for to hold three elements. -/
theorem slice_allocation_pairs :
    ∃ q r' image m t, allocatePairs 3 builder = .ok q r' ∧
      Image.assemble r'.code.toList 64 = .ok image ∧ Reaches image [] (frameStart image) m ∧
        m.pc = Image.resolve image.labels (symbol allocator.qualified) ∧ m.word m.stack = 6 ∧
        Covers (m.word m.stack) 3 2 ∧ Reaches image [] m t ∧ t.word (t.reg q).toNat = 57 ∧
        t.word ((t.reg q).toNat + 1) = 3 := by
  have hassembles : assembles (allocatePairs 3) builder = true := by decide +kernel
  obtain ⟨q, r', image, hgenerated, himage⟩ := exists_of_assembles hassembles
  have hmemory := Machine.size_memory_of_assemble himage
  have hsize := frameStart_size hmemory
  have hframe : frameSlot builder (frameStart image) = 46 := rfl
  obtain ⟨-, hle, -⟩ := Machine.assemble_ok himage
  have hplaced := Machine.placed_of_assemble himage (by omega)
  have hbuilt := hgenerated
  rw [allocatePairs, bind_ok] at hbuilt
  obtain ⟨q, r₁, hnew, hbuilt⟩ := hbuilt
  simp only [bind_ok, modify_ok, pure_ok] at hbuilt
  obtain ⟨_, _, rfl, rfl, rfl⟩ := hbuilt
  simp only [Routine.plus_code, Machine.placed_append, Machine.placed_cons, Nat.zero_add] at hplaced
  obtain ⟨hpnew, hlabel, hpalloc⟩ := hplaced
  have hslot : ∀ n p r₁ slot r₂, requestBlock (.ofStore {}) (.integer 3) allocator 2 builder =
      .ok (n, p) r₁ → temporary sliceSize r₁ = .ok slot r₂ →
      slotWord image builder slot (frameStart image) = 53 := by
    intro n p r₁ slot r₂ h₁ h₂
    have hthree : slot.offset = 3 := @offset_of_givesOffset
      (requestBlock (.ofStore {}) (.integer 3) allocator 2 >>= fun _ => temporary sliceSize) builder
      _ _ _ (by decide +kernel) (bind_ok.2 ⟨(n, p), r₁, h₁, h₂⟩)
    rw [slotWord]
    simp only [builder, Routine.create, hthree]
    exact congrArg (· - 3) (frameStart_word hmemory)
  have hpair : (Shapes.ofStore {}).size (.array .byte 2 none) = .ok ((2 : Nat) : Int) := rfl
  have hthree : OperandAt image [] builder (frameStart image) 0 0 builder
      (compileExpr (.ofStore {}) (.integer 3) false) fun _ _ v => v = 3 :=
    (operand_integer 3 builder).imp fun _ _ _ _ _ hpost => hpost.2
  have hstack : (frameStart image).stack = 46 := rfl
  obtain ⟨code, hcode, hruns⟩ := slice_allocation [] Pool.valid_empty (by decide) (by decide)
    (frameStart_framed hmemory rfl) (by rw [hsize, hstack]; decide) (by rw [hstack]; decide) rfl hpair
    hthree hslot (by rw [hsize]; decide) (by rw [hframe]; decide) hnew
  obtain rfl : code = r₁.code.toList := by simp [hcode, builder, Routine.create]
  obtain ⟨m, hrun₁, hmpc, hrequests, hback⟩ := hruns 0 hpnew rfl rfl
  have hcovers : Covers (m.word m.stack) 3 2 := hrequests.covers_iff.2 (by decide)
  have hproduct : m.word m.stack = 6 := hrequests.product
  have hentry : m.pc = UInt32.ofNat (totalSize r₁.code.toList) :=
    hmpc.trans (Option.some.inj (Machine.constantWord_reference hlabel))
  obtain ⟨m', hrun₂, hreturns, hresult⟩ :=
    allocatorCode_returns [] hpalloc hentry (hrun₁.one rfl) (46 + builder.depth.toNat)
  obtain ⟨t, hrun₃, -, -, hq, hfirst, hsecond, -⟩ := hback m' hrun₂ hreturns
  exact ⟨q, _, image, m, t, hgenerated, himage, hrun₁, hmpc, hproduct, hcovers, hrun₂.trans hrun₃,
    by rw [hq, hfirst, hresult], by rw [hq, hsecond]⟩

/-- The request wraps around. No word is asked for to hold 2^31 elements of two words, although the
slice says that there are 2^31 of them. -/
theorem slice_allocation_wraps :
    ∃ q r' image m t, allocatePairs 2147483648 builder = .ok q r' ∧
      Image.assemble r'.code.toList 64 = .ok image ∧ Reaches image [] (frameStart image) m ∧
        m.pc = Image.resolve image.labels (symbol allocator.qualified) ∧ m.word m.stack = 0 ∧
        ¬ Covers (m.word m.stack) 2147483648 2 ∧ Reaches image [] m t ∧
        t.word ((t.reg q).toNat + 1) = 2147483648 := by
  obtain ⟨q, r', image, m, hgenerated, himage, hrun, hok⟩ := @exists_of_holdsAfter
    (allocatePairs 2147483648) builder 11 (fun image q m =>
      m.pc == Image.resolve image.labels (symbol allocator.qualified) && m.word m.stack == 0 &&
        (Machine.advance image [] 18 m).any fun t => t.word ((t.reg q).toNat + 1) == 2147483648)
    (by decide +kernel)
  simp only [Bool.and_eq_true, beq_iff_eq, Option.any_eq_true] at hok
  obtain ⟨⟨hpc, hzero⟩, t, hadvance, hlength⟩ := hok
  refine ⟨q, r', image, m, t, hgenerated, himage, hrun, hpc, hzero, fun hcovers => ?_,
    Machine.reaches_of_advance hadvance, hlength⟩
  rw [hzero] at hcovers
  exact absurd (hcovers 0 (by decide)) (by decide)

end Qll.Codegen
