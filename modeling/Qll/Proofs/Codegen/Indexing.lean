import Qll.Proofs.Codegen.Evaluating

/-!
# Checked indexing at run time

An index is compared with a length before anything is addressed with it. A fixed array has its length
in the code, a slice has it in a descriptor in memory, next to the address of its first element. What
an index expression does depends on no more than the elements its base designates, so a descriptor
built from an array is indexed like the array itself.
-/

namespace Qll.Codegen

open Assembly (Directive Value totalSize)
open Check (Storage)
open Checked (Expr IndexKind)
open Machine (Register Opcode Word Image Handlers Halts State Placed Reaches ins)
open Qll.Types (Ty sliceSize)
open Qll.Computation

/-! ## Checks -/

/-- Code that lets the machine go on, with memory and the registers that are not free as they were,
if something holds at its start, and stops it with a fault otherwise. -/
def Guards (image : Image) (handlers : Handlers) (code : List Directive) (p : Pool) (fault : Word)
    (pre holds : State → Prop) : Prop :=
  ∀ a s, Placed image a code → s.pc = UInt32.ofNat a → s.reg .one = 1 → pre s →
    (¬ holds s → Halts image handlers s fault) ∧
    (holds s → ∃ t, Reaches image handlers s t ∧ t.pc = UInt32.ofNat (a + totalSize code) ∧
      (∀ q, q ∉ p.free → t.reg q = s.reg q) ∧ t.memory = s.memory)

section Checking

variable {r r' : Routine} {u : Unit} {base i n : Register}

/-- A comparison of two registers on which a jump over a stop depends. -/
theorem checkBy_runs {op jump : Opcode} {f : Word → Word → Word} {hint : String} {fault : Word}
    (hf : ∀ pc a b, Machine.binary pc op a b = .ok (f a b)) (hjump : jump = .jz ∨ jump = .jnz)
    (hhint : symbol hint = hint) (hname : symbol r.name = r.name) (hi : r.pool.Withholds i)
    (hn : r.pool.Withholds n)
    (h : (do
      let ok ← newLabel hint
      let t ← allocate
      emit op [t, i, n]
      jumpBy ok fun x => emit jump [t, x]
      release t
      stopWith fault
      placeLabel ok : Gen Unit) r = .ok u r') :
    r.pool.Kept r'.pool ∧ ∃ code, r' = ((r.plus code).withPool r'.pool).withLabels r'.labels ∧
      ∀ image handlers, Guards image handlers code r.pool fault (fun _ => True)
        fun s => f (s.reg i) (s.reg n) = 0 ↔ jump = .jz := by
  simp only [newLabel_front, stopWith] at h
  generalize hlabel : _ ++ "$" ++ hint ++ _ = label at h
  have hlabel' : symbol label = label := by
    rw [← hlabel]
    exact symbol_newLabel hname hhint _
  simp only [allocate_front, emit_front] at h
  obtain ⟨t, p, ht, -, h⟩ := h
  simp only [bind_ok, release_ok, loadWord_ok, emit_ok, placeLabel_ok] at h
  obtain ⟨_, r₁, hjumps, _, _, ⟨p', ht', rfl⟩, _, _, ⟨_, _, rfl, -, rfl⟩, rfl⟩ := h
  have htakes := Pool.allocate_eq_ok ht
  have hwritable := Pool.writable_of_mem htakes.1
  have ht₁ : p.Withholds t :=
    ⟨hwritable.lt, fun hfree => (Pool.mem_free.1 hfree).2 (htakes.2.2.1 ▸ List.mem_cons_self)⟩
  obtain ⟨hborrows, jumps, hjsize, hr₁, hruns⟩ := jumpBy_runs hjump ht₁ hjumps
  refine ⟨.around ht hborrows.kept ht', [ins op [t, i, n]] ++ (jumps ++
    [.constant .result (.immediate fault), ins .halt [], .label label]), ?_, ?_⟩
  · rw [hr₁]
    simp
  rintro image handlers a s hp hs hone -
  simp only [Machine.placed_append, Machine.placed_cons, Machine.placed_nil, and_true,
    Machine.totalSize_cons, Machine.totalSize_nil, Machine.size_instruction, Machine.size_constant,
    Nat.add_zero, hjsize] at hp
  obtain ⟨hcompare, hpjump, hresult, hhalt, hlabelled⟩ := hp
  have hrun₁ := Machine.reaches_binary handlers hcompare hs (hf _ _ _) hwritable hi.lt hn.lt hone
  have hone₁ := hrun₁.one hone
  obtain ⟨m, hrun₂, hmpc, hmreg, hmmemory, -⟩ := hruns image handlers _ _ hpjump rfl hone₁
  rw [State.reg_assign_self _ _ _ _ hwritable.lt] at hmpc
  constructor
  · intro hout
    rw [if_neg hout] at hmpc
    exact hrun₁.trans hrun₂ |>.halts
      (Machine.halts_of_holds handlers hresult hhalt hmpc ((hrun₁.trans hrun₂).one hone))
  · intro hin
    have htarget : image.constantWord (.reference label) = some _ :=
      Machine.constantWord_reference hlabelled
    rw [if_pos hin, hlabel', Option.some.inj htarget] at hmpc
    refine ⟨m, hrun₁.trans hrun₂, ?_, fun q hq => ?_, hmmemory⟩
    · rw [hmpc]
      simp only [Machine.totalSize_append, Machine.totalSize_cons, Machine.size_instruction,
        Machine.size_constant, Machine.size_label, Machine.totalSize_nil, hjsize]
    · have hfree : r.pool.free = t :: p.free := Pool.free_of_allocate ht
      rw [hfree, List.mem_cons, not_or] at hq
      rw [hmreg q fun hmem => hq.2 (List.mem_of_mem_take hmem),
        State.reg_assign_of_ne _ _ _ _ _ hq.1]

/-- A comparison gives zero exactly if it holds. -/
theorem flag_eq_zero_iff {holds : Bool} : Machine.flag holds = 0 ↔ holds = true := by
  cases holds <;> decide

/-- A bounds check lets exactly the indices below the length pass. -/
theorem checkBounds_runs (hname : symbol r.name = r.name) (hi : r.pool.Withholds i)
    (hn : r.pool.Withholds n) (h : checkBounds i n r = .ok u r') :
    r.pool.Kept r'.pool ∧ ∃ code, r' = ((r.plus code).withPool r'.pool).withLabels r'.labels ∧
      ∀ image handlers, Guards image handlers code r.pool Machine.faultBounds (fun _ => True)
        fun s => s.reg i < s.reg n := by
  simpa [flag_eq_zero_iff] using
    checkBy_runs (f := fun a b => Machine.flag (decide (a < b))) (fun _ _ _ => rfl) (.inl rfl)
      (by decide) hname hi hn h

/-- What a bounds check compares an index with: the length of an array, or the word in a
descriptor. -/
def lengthWord : IndexKind → State → Word → Word
  | .array n, _, _ => UInt32.ofNat n.toNat
  | .slice, s, base => s.word (base + 1).toNat
  | .pointer, _, _ => 0

/-- Comparing a word with one that some code leaves in a new register. -/
theorem checkAgainst_runs {check : Register → Register → Gen Unit} {fault : Word}
    {holds : Word → Word → Prop} {p : Pool} {front : List Directive} (pre : State → Prop)
    (word : State → Word)
    (hcheck : ∀ {r r' : Routine} {u : Unit} {i n : Register}, symbol r.name = r.name →
      r.pool.Withholds i → r.pool.Withholds n → check i n r = .ok u r' →
      r.pool.Kept r'.pool ∧ ∃ code, r' = ((r.plus code).withPool r'.pool).withLabels r'.labels ∧
        ∀ image handlers, Guards image handlers code r.pool fault (fun _ => True)
          fun s => holds (s.reg i) (s.reg n))
    (hvalid : r.pool.Valid) (hname : symbol r.name = r.name)
    (hi : r.pool.Withholds i) (hn : r.pool.allocate = .ok (n, p))
    (hfront : ∀ image handlers, Loads image handlers front r.pool p n pre word)
    (h : (check i n >>= fun _ => release n) ((r.withPool p).plus front) = .ok u r') :
    r.pool.Kept r'.pool ∧ ∃ code, r' = ((r.plus code).withPool r'.pool).withLabels r'.labels ∧
      ∀ image handlers, Guards image handlers code r.pool fault pre
        fun s => holds (s.reg i) (word s) := by
  simp only [bind_ok, release_ok] at h
  obtain ⟨_, r₁, hchecked, p', hn', rfl⟩ := h
  have htakes := Pool.Takes.of_allocate hn
  have hfree := Pool.free_of_allocate hn
  obtain ⟨hkept, code, hr₁, hguards⟩ := hcheck (r := (r.withPool p).plus front) hname
    (hi.allocate hn) ((hvalid.allocate hn).withholds htakes.mem_live) hchecked
  refine ⟨.around hn hkept hn', front ++ code, by rw [hr₁]; simp, ?_⟩
  intro image handlers a s hp hs hone hpre
  obtain ⟨hpfront, hpcheck⟩ := Machine.placed_append.1 hp
  obtain ⟨m, hsm, hmpc, hmn, hmreg, hmmemory, -⟩ := hfront image handlers a s hpfront hs hone hpre
  have hkeep {q : Register} (hq : q ∉ r.pool.free) : m.reg q = s.reg q := by
    refine hmreg q ?_
    by_cases hmem : q ∈ Pool.allocatable
    · exact .inl (by_contra fun hlive => hq (Pool.mem_free.2 ⟨hmem, hlive⟩))
    · exact .inr fun hever => hmem ((hvalid.allocate hn).ever_allocatable q hever)
  obtain ⟨hstops, hpasses⟩ := hguards image handlers _ m hpcheck hmpc (hsm.one hone) trivial
  simp only [hmn, hkeep hi.notFree] at hstops hpasses
  refine ⟨fun hout => hsm.halts (hstops hout), fun hin => ?_⟩
  obtain ⟨t, hmt, htpc, htreg, htmemory⟩ := hpasses hin
  refine ⟨t, hsm.trans hmt, ?_, fun q hq => ?_, htmemory.trans hmmemory⟩
  · rw [htpc, Machine.totalSize_append, Nat.add_assoc]
  · rw [htreg q fun hmem => hq (hfree ▸ List.mem_cons_of_mem n hmem), hkeep hq]

/-- The word behind an address is loaded into a new register. -/
theorem loadNext_runs {p : Pool} (hbase : base.toNat < 64) (hn : r.pool.allocate = .ok (n, p))
    (image : Image) (handlers : Handlers) :
    Loads image handlers [ins .mov [n, base], ins .add [n, n, .one], ins .load [n, n]] r.pool p n
      (fun s => (s.reg base + 1).toNat < s.memory.size) fun s => s.word (s.reg base + 1).toNat := by
  have htakes := Pool.Takes.of_allocate hn
  have hw := htakes.writable
  rintro a s ⟨hmov, hadd, hload, -⟩ hs hone hin
  have hrun₁ := Machine.reaches_mov handlers hmov hs hw hbase hone
  have hone₁ := hrun₁.one hone
  have hrun₂ := Machine.reaches_binary handlers hadd rfl rfl hw hw.lt (by decide) hone₁
  have hone₂ := hrun₂.one hone₁
  rw [hone₁, State.reg_assign_self _ _ _ _ hw.lt] at hrun₂ hone₂
  have hrun₃ := Machine.reaches_load handlers hload rfl
    (by rw [State.reg_assign_self _ _ _ _ hw.lt]; exact hin) hw hw.lt hone₂
  rw [State.reg_assign_self _ _ _ _ hw.lt] at hrun₃
  refine ⟨_, hrun₁.trans (hrun₂.trans hrun₃), rfl,
    State.reg_assign_self _ _ _ _ hw.lt, fun x hx => ?_, rfl, rfl⟩
  have hne := hx.ne htakes.new htakes.taken
  rw [State.reg_assign_of_ne _ _ _ _ _ hne, State.reg_assign_of_ne _ _ _ _ _ hne,
    State.reg_assign_of_ne _ _ _ _ _ hne]

/-- The check of an index into an array or a slice. -/
theorem checkIndex_runs {kind : IndexKind} (hvalid : r.pool.Valid) (hname : symbol r.name = r.name)
    (hbase : r.pool.Withholds base) (hi : r.pool.Withholds i) (hkind : kind ≠ .pointer)
    (h : checkIndex base i kind r = .ok u r') :
    r.pool.Kept r'.pool ∧ ∃ code, r' = ((r.plus code).withPool r'.pool).withLabels r'.labels ∧
      ∀ image handlers, Guards image handlers code r.pool Machine.faultBounds
        (fun s => kind = .slice → (s.reg base + 1).toNat < s.memory.size)
        fun s => s.reg i < lengthWord kind s (s.reg base) := by
  cases kind with
  | array length =>
    simp only [checkIndex, allocate_front, loadCount_front] at h
    obtain ⟨n, p, hn, -, -, h⟩ := h
    have htakes := Pool.Takes.of_allocate hn
    obtain ⟨hkept, code, hr, hguards⟩ := checkAgainst_runs (fun _ => True)
      (fun _ => UInt32.ofNat length.toNat) checkBounds_runs hvalid hname hi hn (fun image handlers => by
        rintro a s ⟨hconstant, -⟩ hs hone -
        refine ⟨_, Machine.reaches_constant handlers hconstant rfl hs htakes.writable hone, rfl,
          State.reg_assign_self _ _ _ _ htakes.writable.lt, fun x hx => ?_, rfl, rfl⟩
        exact State.reg_assign_of_ne _ _ _ _ _ (hx.ne htakes.new htakes.taken)) h
    exact ⟨hkept, code, hr, fun image handlers a s hp hs hone _ =>
      hguards image handlers a s hp hs hone trivial⟩
  | slice =>
    simp only [checkIndex, allocate_front, emit_front, offset, sliceLength, adjust,
      Int.one_ne_zero, ↓reduceIte, Routine.plus_plus] at h
    obtain ⟨n, p, hn, -, -, -, h⟩ := h
    obtain ⟨hkept, code, hr, hguards⟩ := checkAgainst_runs
      (fun s => (s.reg base + 1).toNat < s.memory.size) (fun s => s.word (s.reg base + 1).toNat)
      checkBounds_runs hvalid hname hi hn (loadNext_runs hbase.lt hn) h
    exact ⟨hkept, code, hr, fun image handlers a s hp hs hone hin =>
      hguards image handlers a s hp hs hone (hin rfl)⟩
  | pointer => exact absurd rfl hkind

end Checking

/-! ## Elements -/

section Elements

variable (image : Image) (handlers : Handlers) {r r' : Routine} {u : Unit} {shapes : Shapes}
  {i q : Register} {kind : IndexKind} {t : Ty} {lvalue : Bool}

/-- Multiplying a count of elements by their size. -/
theorem scale_runs {size : Int} (hvalid : r.pool.Valid) (hi : i ∈ r.pool.live)
    (h : scale i size r = .ok u r') :
    r.pool.Kept r'.pool ∧ ∃ code, r' = (r.plus code).withPool r'.pool ∧ ∀ image handlers,
      Runs image handlers code (fun _ => True) fun s t =>
        t.reg i = s.reg i * UInt32.ofNat size.toNat ∧
          (∀ q, q ∉ r.pool.free → q ≠ i → t.reg q = s.reg q) ∧ t.memory = s.memory := by
  have hiw := Pool.writable_of_mem (hvalid.allocatable hi)
  unfold scale at h
  by_cases hone : size = 1
  · simp only [hone, ↓reduceIte, pure_ok] at h
    obtain ⟨-, rfl⟩ := h
    refine ⟨.refl _, [], by simp, fun image handlers a s _ hs _ _ => ⟨s, .refl s, hs, ?_,
      fun _ _ _ => rfl, rfl⟩⟩
    rw [hone]
    exact (UInt32.mul_one _).symm
  · simp only [hone, ↓reduceIte, allocate_front, loadCount_front, emit_front, release_ok] at h
    obtain ⟨x, p, hx, -, -, -, p', hx', rfl⟩ := h
    have htakes := Pool.Takes.of_allocate hx
    refine ⟨.around hx (.refl p) hx',
      [.constant x (.immediate (UInt32.ofNat size.toNat)), ins .mul [i, i, x]], by simp, ?_⟩
    rintro image handlers a s ⟨hconstant, hmul, -⟩ hs hone' -
    have hne := ((hvalid.withholds hi).ne hx)
    have hrun₁ := Machine.reaches_constant handlers hconstant rfl hs htakes.writable hone'
    have hrun₂ := Machine.reaches_binary handlers hmul rfl rfl hiw hiw.lt htakes.writable.lt
      (hrun₁.one hone')
    refine ⟨_, hrun₁.trans hrun₂, rfl, ?_, fun q hq hqi => ?_, rfl⟩
    · rw [State.reg_assign_self _ _ _ _ hiw.lt, State.reg_assign_self _ _ _ _ htakes.writable.lt,
        State.reg_assign_of_ne _ _ _ _ _ hne]
    · rw [Pool.free_of_allocate hx, List.mem_cons, not_or] at hq
      rw [State.reg_assign_of_ne _ _ _ _ _ hqi, State.reg_assign_of_ne _ _ _ _ _ hq.1]

/-- Adding a scaled index to an address, and what is left of that: the address of an element, or the
element itself, in the register of the address. -/
theorem addElement_runs {b : Register} {k : Nat} (hvalid : r.pool.Valid) (hb : b ∈ r.pool.live)
    (hi : i ∈ r.pool.live) (hne : b ≠ i)
    (h : (do
      scale i k
      emit .add [b, b, i]
      release i
      loadValue shapes b t lvalue : Gen Register) r = .ok q r') :
    q = b ∧ r'.pool.live = r.pool.live.erase i ∧ r'.pool.Valid ∧
      ∃ code, r' = (r.plus code).withPool r'.pool ∧ Runs image handlers code
        (fun s => lvalue = false → shapes.isIntegral t = .ok true →
          (s.reg b + s.reg i * UInt32.ofNat k).toNat < s.memory.size)
        fun s t' => t'.reg b = valueAt shapes t lvalue t' (s.reg b + s.reg i * UInt32.ofNat k) ∧
          (∀ x, x ∉ r.pool.free → x ≠ b → x ≠ i → t'.reg x = s.reg x) ∧ t'.memory = s.memory := by
  rw [bind_ok] at h
  obtain ⟨_, r₁, hscale, h⟩ := h
  obtain ⟨hkept, front, hr₁, hruns⟩ := scale_runs hvalid hi hscale
  simp only [emit_front, release_front] at h
  obtain ⟨-, p, hp, h⟩ := h
  have hbw := Pool.writable_of_mem (hvalid.allocatable hb)
  have hiw := Pool.writable_of_mem (hvalid.allocatable hi)
  obtain ⟨rfl, back, hr', hruns'⟩ := loadValue_runs image handlers hbw h
  have hpool : r'.pool = p := by rw [hr', Routine.plus_pool, Routine.withPool_pool]
  obtain ⟨-, hp'⟩ := Pool.release_eq_ok hp
  refine ⟨rfl, ?_, ?_, front ++ ([ins .add [q, q, i]] ++ back), ?_, fun a s hpl hs hone hin => ?_⟩
  · rw [hpool, hp', ← hkept.live]
    rfl
  · rw [hpool]
    exact (hkept.valid hvalid).release hp
  · rw [hr', hr₁]
    simp
  · simp only [Machine.placed_append, Machine.placed_cons, Machine.placed_nil, and_true,
      Machine.totalSize_cons, Machine.totalSize_nil, Machine.size_instruction, Nat.add_zero] at hpl
    obtain ⟨hpfront, hadd, hpback⟩ := hpl
    obtain ⟨m, hsm, hmpc, hmi, hmreg, hmmemory⟩ :=
      hruns image handlers a s hpfront hs hone trivial
    have hone₁ := hsm.one hone
    have hrun₂ := Machine.reaches_binary handlers hadd hmpc rfl hbw hbw.lt hiw.lt hone₁
    rw [hmi, hmreg q (hvalid.withholds hb).notFree hne, Int.toNat_natCast] at hrun₂
    obtain ⟨t', hmt, htpc, htq, htreg, htmemory⟩ := hruns' _ _ hpback rfl (hrun₂.one hone₁) (by
      simp only [State.reg_assign_self _ _ _ _ hbw.lt, State.assign_memory, hmmemory]
      exact hin)
    refine ⟨t', hsm.trans (hrun₂.trans hmt), ?_, ?_, fun x hx hxb hxi => ?_, ?_⟩
    · rw [htpc]
      simp only [Machine.totalSize_append, Machine.totalSize_cons, Machine.size_instruction,
        Machine.totalSize_nil, Nat.add_zero, Nat.add_assoc]
    · rw [htq, State.reg_assign_self _ _ _ _ hbw.lt]
      exact valueAt_congr (by rw [htmemory])
    · rw [htreg x hxb, State.reg_assign_of_ne _ _ _ _ _ hxb, hmreg x hx hxi]
    · rw [htmemory, State.assign_memory, hmmemory]

/-- The elements that the base of an index expression designates: there are `n`, from the address
`data` on. A slice says so in memory. -/
def Designates : IndexKind → State → Word → Word → Nat → Prop
  | .array length, _, base, data, n => length = n ∧ base = data
  | .slice, s, base, data, n =>
    base.toNat < s.memory.size ∧ (base + 1).toNat < s.memory.size ∧ s.word base.toNat = data ∧
      s.word (base + 1).toNat = UInt32.ofNat n
  | .pointer, _, _, _, _ => False

/-- What a base designates depends on memory alone. -/
theorem Designates.congr {s s' : State} {b data : Word} {n : Nat} (h : Designates kind s b data n)
    (hmemory : s'.memory = s.memory) : Designates kind s' b data n := by
  cases kind with
  | array length => exact h
  | slice =>
    simp only [Designates, State.word_eq_of_memory hmemory, hmemory] at h ⊢
    exact h
  | pointer => exact h

/-- An index is compared with the number of designated elements. -/
theorem Designates.lengthWord {s : State} {b data : Word} {n : Nat} (h : Designates kind s b data n) :
    lengthWord kind s b = UInt32.ofNat n ∧ (kind = .slice → (b + 1).toNat < s.memory.size) := by
  cases kind with
  | array length => exact ⟨by rw [Codegen.lengthWord, h.1, Int.toNat_natCast], nofun⟩
  | slice => exact ⟨h.2.2.2, fun _ => h.2.1⟩
  | pointer => exact h.elim

/-- The code that fetches the address of the first element: a slice has it in memory. -/
def fetchData (b : Register) : IndexKind → List Directive
  | .slice => [ins .load [b, b]]
  | _ => []

/-- The address of the first designated element is fetched. -/
theorem fetchData_runs {b : Register} {data : Word} {n : Nat} (hb : b.Writable) :
    Runs image handlers (fetchData b kind) (fun s => Designates kind s (s.reg b) data n)
      fun s t => t.reg b = data ∧ (∀ x, x ≠ b → t.reg x = s.reg x) ∧ t.memory = s.memory := by
  intro a s hp hs hone h
  cases kind with
  | array length => exact ⟨s, .refl s, hs, h.2, fun _ _ => rfl, rfl⟩
  | slice =>
    refine ⟨_, Machine.reaches_load handlers hp.1 hs h.1 hb hb.lt hone, rfl, ?_,
      fun x hx => State.reg_assign_of_ne _ _ _ _ _ hx, rfl⟩
    rw [State.reg_assign_self _ _ _ _ hb.lt]
    exact h.2.2.1
  | pointer => exact h.elim

end Elements

/-! ## Index expressions -/

section Index

variable {image : Image} {handlers : Handlers} {shapes : Shapes} {r₀ r r' : Routine} {s₀ s : State}
  {low high n k : Nat} {base position : Expr} {kind : IndexKind} {t : Ty} {lvalue : Bool}
  {b data i : Word} {q : Register}

/-- What the code of an index expression does that starts in the state `s` and ends at `back`: it
stops the machine with the bounds fault if the index is not below the number of elements. Otherwise
it leaves in `q` the address of the element, or the element itself, and keeps what is in use; all
words of the element are words of the array. -/
structure Indexes (image : Image) (handlers : Handlers) (shapes : Shapes) (t : Ty) (lvalue : Bool)
    (r : Routine) (data : Word) (n k : Nat) (i : Word) (q : Register) (back : Word) (s : State) :
    Prop where
  faults : n ≤ i.toNat → Halts image handlers s Machine.faultBounds
  computes : i.toNat < n → ∃ t' element, Reaches image handlers s t' ∧ t'.pc = back ∧
    Steady r s t' ∧ t'.reg q = valueAt shapes t lvalue t' element ∧
    element.toNat = data.toNat + i.toNat * k ∧ element.toNat + k ≤ data.toNat + n * k

/-- An element of an array in memory is addressed without overflow and lies inside the array. -/
theorem toNat_element (hi : i.toNat < n) (hblock : data.toNat + n * k ≤ 4294967296) :
    (data + i * UInt32.ofNat k).toNat = data.toNat + i.toNat * k ∧
      data.toNat + i.toNat * k + k ≤ data.toNat + n * k := by
  have hrow : i.toNat * k + k ≤ n * k := by
    rw [← Nat.succ_mul]
    exact Nat.mul_le_mul_right k hi
  refine ⟨?_, by omega⟩
  have hdata := data.toNat_lt
  rw [UInt32.toNat_add, UInt32.toNat_mul, UInt32.toNat_ofNat', Nat.mul_mod, Nat.mod_mod,
    ← Nat.mul_mod, Nat.add_mod_mod]
  refine Nat.mod_eq_of_lt ?_
  rcases Nat.eq_zero_or_pos k with rfl | hk
  · simpa using hdata
  · omega

variable (image handlers data) in
/-- Checking an index and adding it to a base. If the base in `y` designates `n` elements of size `k` in
memory, then the machine stops unless the index in `x` is below `n`; otherwise the element or its address takes
the place of the base. -/
theorem checkedElement_runs {r₂ : Routine} {x y : Register} (hkind : kind ≠ .pointer) (hvalid : r₂.pool.Valid)
    (hname : symbol r₂.name = r₂.name) (hy : y ∈ r₂.pool.live) (hx : x ∈ r₂.pool.live) (hne : y ≠ x)
    (hn : n < 4294967296) (hsize : shapes.size t = .ok (k : Int))
    (hword : lvalue = false → shapes.isIntegral t = .ok true → 0 < k)
    (h : (do
      checkIndex y x kind
      if kind = .slice then emit .load [y, y]
      scale x (← orFault (shapes.size t))
      emit .add [y, y, x]
      release x
      loadValue shapes y t lvalue : Gen Register) r₂ = .ok q r') :
    q = y ∧ r'.pool.live = r₂.pool.live.erase x ∧ r'.pool.Valid ∧ ∃ code, Extends r₂ r' code ∧
      ∀ a s, Placed image a code → s.pc = UInt32.ofNat a → s.reg .one = 1 →
        data.toNat + n * k ≤ s.memory.size → s.memory.size ≤ 4294967296 →
        Designates kind s (s.reg y) data n →
        (n ≤ (s.reg x).toNat → Halts image handlers s Machine.faultBounds) ∧
        ((s.reg x).toNat < n → ∃ t' element, Reaches image handlers s t' ∧
          t'.pc = UInt32.ofNat (a + totalSize code) ∧ t'.reg q = valueAt shapes t lvalue t' element ∧
          element.toNat = data.toNat + (s.reg x).toNat * k ∧ element.toNat + k ≤ data.toNat + n * k ∧
          (∀ z, r₂.pool.Withholds z → z ≠ q → z ≠ x → t'.reg z = s.reg z) ∧ t'.memory = s.memory) := by
  rw [bind_ok] at h
  obtain ⟨_, r₃, hcheck, h⟩ := h
  have hwy := hvalid.withholds hy
  have hwx := hvalid.withholds hx
  obtain ⟨hkept, check, hr₃, hguards⟩ := checkIndex_runs hvalid hname hwy hwx hkind hcheck
  -- Fetching the address of the first element is part of the code of a slice only.
  have hadd : (do
      scale x k
      emit .add [y, y, x]
      release x
      loadValue shapes y t lvalue : Gen Register) (r₃.plus (fetchData y kind)) = .ok q r' := by
    cases kind with
    | array length => simpa [fetchData, hsize, orFault] using h
    | slice =>
      simp only [↓reduceIte, emit_front] at h
      simpa [fetchData, hsize, orFault] using h.2
    | pointer => exact absurd rfl hkind
  have hlive₃ : r₃.pool.live = r₂.pool.live := hkept.live
  obtain ⟨rfl, hlive, hvalid', last, hr', hrunLast⟩ :=
    addElement_runs image handlers (r := r₃.plus (fetchData y kind)) (hkept.valid hvalid)
      (hlive₃ ▸ hy) (hlive₃ ▸ hx) hne hadd
  refine ⟨rfl, by rw [hlive, Routine.plus_pool, hlive₃], hvalid', check ++ (fetchData q kind ++ last), ?_,
    fun a s hp hs hone hblock hmemory hbase => ?_⟩
  · refine .of_eq (p := r'.pool) (n := r₃.labels) ?_
    rw [hr', hr₃]
    simp
  simp only [Machine.placed_append, Machine.totalSize_append, ← Nat.add_assoc] at hp ⊢
  obtain ⟨hpcheck, hpfetch, hplast⟩ := hp
  obtain ⟨hlength, hin⟩ := hbase.lengthWord
  obtain ⟨hstops, hpasses⟩ := hguards image handlers a s hpcheck hs hone hin
  have hless : s.reg x < lengthWord kind s (s.reg q) ↔ (s.reg x).toNat < n := by
    rw [hlength, UInt32.lt_iff_toNat_lt, UInt32.toNat_ofNat_of_lt' hn]
  refine ⟨fun hout => hstops fun hin => Nat.not_lt.2 hout (hless.1 hin), fun hindexed => ?_⟩
  obtain ⟨m₁, hrun₁, hpc₁, hreg₁, hmemory₁⟩ := hpasses (hless.2 hindexed)
  have hone₁ := hrun₁.one hone
  have hbase₁ : Designates kind m₁ (m₁.reg q) data n := by
    rw [hreg₁ q hwy.notFree]
    exact hbase.congr hmemory₁
  obtain ⟨m₂, hrun₂, hpc₂, hdata, hreg₂, hmemory₂⟩ := fetchData_runs image handlers
    (Pool.writable_of_mem (hvalid.allocatable hy)) _ m₁ hpfetch hpc₁ hone₁ hbase₁
  obtain ⟨helement, hinside⟩ := toNat_element (k := k) hindexed (hblock.trans hmemory)
  have hx₂ : m₂.reg x = s.reg x := by rw [hreg₂ x hne.symm, hreg₁ x hwx.notFree]
  obtain ⟨t', hrun₃, hpc₃, hq, hreg₃, hmemory₃⟩ := hrunLast _ m₂ hplast hpc₂ (hrun₂.one hone₁) (by
    intro hasked hintegral
    have := hword hasked hintegral
    rw [hdata, hx₂, helement, (hrun₁.trans hrun₂).size]
    omega)
  rw [hdata, hx₂] at hq
  have hfree : (r₃.plus (fetchData q kind)).pool.free = r₂.pool.free := hkept.free
  refine ⟨t', _, hrun₁.trans (hrun₂.trans hrun₃), hpc₃, hq, helement, by rw [helement]; exact hinside,
    fun z hz hzq hzx => ?_, by rw [hmemory₃, hmemory₂, hmemory₁]⟩
  rw [hreg₃ z (hfree ▸ hz.notFree) hzq hzx, hreg₂ z hzq, hreg₁ z hz.notFree]

/-- Index expressions. If the code of the base leaves a word that designates `n` elements of size `k`
in memory, and the code of the position leaves the index and what the base designates, then the code
of the index expression checks the index and addresses the element. -/
theorem index_runs (hkind : kind ≠ .pointer) (hvalid : r.pool.Valid) (halong : Along r₀ r)
    (hname : symbol r.name = r.name) (hn : n < 4294967296) (hsize : shapes.size t = .ok (k : Int))
    (hblock : data.toNat + n * k ≤ s₀.memory.size) (hmemory : s₀.memory.size ≤ 4294967296)
    (hword : lvalue = false → shapes.isIntegral t = .ok true → 0 < k)
    (hbase : OperandAt image handlers r₀ s₀ low high r (compileExpr shapes base true) fun s t v =>
      (∀ x, x < low ∨ high ≤ x → t.word x = s.word x) ∧ v = b ∧ Designates kind t b data n)
    (hposition : Operand image handlers r₀ s₀ low high (compileExpr shapes position false)
      fun s t v => v = i ∧ (Designates kind s b data n → Designates kind t b data n))
    (h : compileExpr shapes (.index base position false kind t) lvalue r = .ok q r') :
    ∃ code, Yields r r' q code ∧ ∀ a s, Placed image a code → s.pc = UInt32.ofNat a →
      s.reg .one = 1 → Amid image handlers r₀ s₀ low high r s →
      Indexes image handlers shapes t lvalue r data n k i q (UInt32.ofNat (a + totalSize code)) s := by
  simp only [compileExpr, ne_eq, hkind, not_false_eq_true, decide_true] at h
  rw [bind_ok] at h
  obtain ⟨y, r₁, hy, h⟩ := h
  rw [bind_ok] at h
  obtain ⟨x, r₂, hx, h⟩ := h
  simp only [Bool.not_false, ↓reduceIte] at h
  obtain ⟨codeB, hyb, hrunB⟩ := hbase y r₁ hvalid halong hy
  obtain ⟨codeX, hyx, hrunX⟩ := hposition r₁ x r₂ hyb.valid (halong.more hyb.toExtends) hx
  have hne : y ≠ x := fun heq => hyx.new (heq ▸ hyb.mem_live)
  obtain ⟨rfl, hlive, hvalid', code, hextends, hrunE⟩ := checkedElement_runs image handlers data
    hkind hyx.valid (by rw [hyx.name, hyb.name, hname])
    (hyx.live_subset y hyb.mem_live) hyx.mem_live hne hn hsize hword h
  refine ⟨codeB ++ (codeX ++ code),
    { hyb.toExtends.trans (hyx.toExtends.trans hextends) with
      live := ?_
      valid := hvalid' }, fun a s hp hs hone hamid => ?_⟩
  · rw [hlive]
    refine ((hyx.live.erase x).trans ?_).trans hyb.live
    rw [List.erase_cons_head]
  simp only [Machine.placed_append, Machine.totalSize_append, ← Nat.add_assoc] at hp ⊢
  obtain ⟨hpB, hpX, hpE⟩ := hp
  obtain ⟨m₁, hrun₁, hpc₁, hsteady₁, hother₁, hbase₁, hdesignated⟩ := hrunB a s hpB hs hone hamid
  have hone₁ := hrun₁.one hone
  obtain ⟨m₂, hrun₂, hpc₂, hsteady₂, hindex, hdesignates⟩ := hrunX _ m₁ hpX hpc₁ hone₁
    (hamid.step hyb.toExtends hrun₁ hsteady₁.stack hother₁)
  have hbase₂ : Designates kind m₂ (m₂.reg q) data n := by
    rw [hsteady₂.reg q hyb.mem_live, hbase₁]
    exact hdesignates hdesignated
  have hsize₂ : m₂.memory.size = s₀.memory.size := by
    rw [(hrun₁.trans hrun₂).size, hamid.reaches.size]
  obtain ⟨hstops, hcomputes⟩ := hrunE _ m₂ hpE hpc₂ (hrun₂.one hone₁) (hsize₂ ▸ hblock) (hsize₂ ▸ hmemory) hbase₂
  rw [hindex] at hstops hcomputes
  refine ⟨fun hout => (hrun₁.trans hrun₂).halts (hstops hout), fun hindexed => ?_⟩
  obtain ⟨t', element, hrun₃, hpc₃, hq, helement, hinside, hkeep, hmemory₃⟩ := hcomputes hindexed
  refine ⟨t', element, hrun₁.trans (hrun₂.trans hrun₃), hpc₃, ?_, hq, helement, hinside⟩
  refine (hsteady₁.trans hyb.depth hyb.live_subset hsteady₂).kept ?_ (fun z hz => ?_) hmemory₃
  · exact hkeep _ (Pool.withholds_of_reserved (.inr (.inr rfl))) (Pool.ne_sp_of_mem hyb.mem).symm
      (Pool.ne_sp_of_mem hyx.mem).symm
  · have hz₁ := hyb.live_subset z hz
    exact hkeep z (hyx.valid.withholds (hyx.live_subset z hz₁)) (fun heq => hyb.new (heq ▸ hz))
      (fun heq => hyx.new (heq ▸ hz₁))

end Index

/-! ## Slice descriptors -/

section Descriptors

variable {r r' : Routine} {u : Unit} {addr length : Register}

/-- The length and the capacity of a descriptor are written behind the address of its first word. -/
theorem storeDescriptor_runs (haddr : addr.Writable) (hlength : length.toNat < 64)
    (hne : length ≠ addr) (h : storeDescriptor addr length r = .ok u r') :
    ∃ code, r' = r.plus code ∧ ∀ image handlers, Runs image handlers code
      (fun s => (s.reg addr).toNat + 3 ≤ s.memory.size ∧ s.memory.size ≤ 4294967296)
      fun s t => (∀ x, t.word x = if x = (s.reg addr).toNat + 1 ∨ x = (s.reg addr).toNat + 2
          then s.reg length else s.word x) ∧ ∀ q, q ≠ addr → t.reg q = s.reg q := by
  have hstep : sliceCapacity - sliceLength = 1 := rfl
  rw [storeDescriptor, hstep, sliceLength] at h
  simp only [offset, adjust, Int.one_ne_zero, ↓reduceIte, emit_front, emit_ok,
    Routine.plus_plus] at h
  obtain ⟨-, -, -, -, rfl⟩ := h
  refine ⟨_, rfl, ?_⟩
  rintro image handlers a s ⟨hadd₁, hstore₁, hadd₂, hstore₂, -⟩ hs hone ⟨hin, hsize⟩
  have hrun₁ := Machine.reaches_binary handlers hadd₁ hs rfl haddr haddr.lt (by decide) hone
  have hone₁ := hrun₁.one hone
  rw [hone] at hrun₁ hone₁
  have haddr₁ : (s.reg addr + 1).toNat = (s.reg addr).toNat + 1 := Machine.toNat_add_one (by omega)
  have haddr₂ : (s.reg addr + 1 + 1).toNat = (s.reg addr).toNat + 2 := by
    rw [Machine.toNat_add_one (by omega), haddr₁]
  have hrun₂ := Machine.reaches_store handlers hstore₁ rfl
    (by rw [State.reg_assign_self _ _ _ _ haddr.lt, haddr₁, State.assign_memory]; omega) haddr.lt
    hlength hone₁
  rw [State.reg_assign_self _ _ _ _ haddr.lt, State.reg_assign_of_ne _ _ _ _ _ hne, haddr₁] at hrun₂
  have hone₂ := hrun₂.one hone₁
  have hrun₃ := Machine.reaches_binary handlers hadd₂ rfl rfl haddr haddr.lt (by decide) hone₂
  have hone₃ := hrun₃.one hone₂
  rw [hone₂, State.put_reg, State.reg_assign_self _ _ _ _ haddr.lt] at hrun₃ hone₃
  have hrun₄ := Machine.reaches_store handlers hstore₂ rfl
    (by
      rw [State.reg_assign_self _ _ _ _ haddr.lt, haddr₂, State.assign_memory,
        State.put_memory_size, State.assign_memory]
      omega) haddr.lt hlength hone₃
  rw [State.reg_assign_self _ _ _ _ haddr.lt, State.reg_assign_of_ne _ _ _ _ _ hne, State.put_reg,
    State.reg_assign_of_ne _ _ _ _ _ hne, haddr₂] at hrun₄
  refine ⟨_, hrun₁.trans (hrun₂.trans (hrun₃.trans hrun₄)), rfl, fun x => ?_, fun q hq => ?_⟩
  · rw [State.word_put _ _ _ _ _ (by simp only [State.assign_memory, State.put_memory_size]; omega),
      State.assign_word, State.word_put _ _ _ _ _ (by simp only [State.assign_memory]; omega),
      State.assign_word]
    split_ifs <;> first | rfl | omega
  · rw [State.put_reg, State.reg_assign_of_ne _ _ _ _ _ hq, State.put_reg,
      State.reg_assign_of_ne _ _ _ _ _ hq]

/-- Code that writes a descriptor at the address in `addr`: the word `first`, then twice the word `length`.
The registers of `kept` stay as they are. -/
def Describes (image : Image) (handlers : Handlers) (code : List Directive) (addr : Register)
    (first length : State → Word) (kept : Register → Prop) : Prop :=
  Runs image handlers code
    (fun s => (s.reg addr).toNat + 3 ≤ s.memory.size ∧ s.memory.size ≤ 4294967296)
    fun s t => (∀ y, t.word y = if y = (s.reg addr).toNat + 1 ∨ y = (s.reg addr).toNat + 2 then length s
        else if y = (s.reg addr).toNat then first s else s.word y) ∧
      ∀ q, kept q → t.reg q = s.reg q

/-- A descriptor is written: the word in `x`, then twice a word that is loaded for it. -/
theorem describeConstant_runs {image : Image} {handlers : Handlers} {x : Register} {code : List Directive}
    {w : Word} (haddr : addr.Writable) (hx : x.toNat < 64) (hlength : length.Writable)
    (hne : length ≠ addr)
    (hcode : Runs image handlers code
      (fun s => (s.reg addr).toNat + 3 ≤ s.memory.size ∧ s.memory.size ≤ 4294967296)
      fun s t => (∀ y, t.word y = if y = (s.reg addr).toNat + 1 ∨ y = (s.reg addr).toNat + 2
          then s.reg length else s.word y) ∧ ∀ q, q ≠ addr → t.reg q = s.reg q) :
    Describes image handlers (ins .store [addr, x] :: .constant length (.immediate w) :: code) addr
      (·.reg x) (fun _ => w) fun q => q ≠ addr ∧ q ≠ length := by
  rintro a s ⟨hstore, hconstant, hplaced⟩ hs hone ⟨hin, hsize⟩
  have hrun₁ := Machine.reaches_store handlers hstore hs (by omega) haddr.lt hx hone
  have hone₁ := hrun₁.one hone
  have hrun₂ := Machine.reaches_constant handlers hconstant rfl rfl hlength hone₁
  generalize hm : State.assign _ length _ _ = m at hrun₂
  have hreg {q : Register} (hq : q ≠ length) : m.reg q = s.reg q := by
    rw [← hm, State.reg_assign_of_ne _ _ _ _ _ hq, State.put_reg]
  have hword (y : Nat) : m.word y = if y = (s.reg addr).toNat then s.reg x else s.word y := by
    rw [← hm, State.assign_word, State.word_put _ _ _ _ _ (by omega)]
  have hlength' : m.reg length = w := by
    rw [← hm, State.reg_assign_self _ _ _ _ hlength.lt]
  obtain ⟨t, hmt, htpc, htword, htreg⟩ := hcode _ m hplaced (by rw [← hm]; rfl) (hrun₂.one hone₁) (by
    simp only [hreg hne.symm, (hrun₁.trans hrun₂).size]
    exact ⟨hin, hsize⟩)
  refine ⟨t, hrun₁.trans (hrun₂.trans hmt), ?_, fun y => ?_, fun q ⟨hqa, hql⟩ => ?_⟩
  · rw [htpc]
    simp only [Machine.totalSize_cons, Machine.size_instruction, Machine.size_constant,
      Nat.add_assoc]
  · rw [htword, hreg hne.symm, hlength', hword]
  · rw [htreg q hqa, hreg hql]

/-- A descriptor is written: the word in `x`, then twice the word in `length`. -/
theorem describeRegister_runs {image : Image} {handlers : Handlers} {x : Register} {code : List Directive}
    (haddr : addr.Writable) (hx : x.toNat < 64)
    (hcode : Runs image handlers code
      (fun s => (s.reg addr).toNat + 3 ≤ s.memory.size ∧ s.memory.size ≤ 4294967296)
      fun s t => (∀ y, t.word y = if y = (s.reg addr).toNat + 1 ∨ y = (s.reg addr).toNat + 2
          then s.reg length else s.word y) ∧ ∀ q, q ≠ addr → t.reg q = s.reg q) :
    Describes image handlers (ins .store [addr, x] :: code) addr (·.reg x) (·.reg length) (· ≠ addr) := by
  rintro a s ⟨hstore, hplaced⟩ hs hone ⟨hin, hsize⟩
  have hrun₁ := Machine.reaches_store handlers hstore hs (by omega) haddr.lt hx hone
  obtain ⟨t, hrun₂, hpc, hword, hreg⟩ := hcode _ _ hplaced rfl (hrun₁.one hone)
    (by simpa only [State.put_reg, State.put_memory_size] using And.intro hin hsize)
  refine ⟨t, hrun₁.trans hrun₂, ?_, fun y => ?_, hreg⟩
  · rw [hpc]
    simp only [Machine.totalSize_cons, Machine.size_instruction, Nat.add_assoc]
  · rw [hword, State.word_put _ _ _ _ _ (by omega), State.put_reg, State.put_reg]

/-- A descriptor is written in a temporary, whose address is left in a new register. What is written comes
from registers in use. -/
theorem describeSlot_runs (image : Image) (handlers : Handlers) {r r₁ r₂ r' : Routine} {slot : Slot}
    {addr q : Register} {code : List Directive} (first length : State → Word)
    (hvalid : r.pool.Valid) (haddr : slotAddress slot r = .ok addr r₁) (hext : Extends r₁ r₂ code)
    (hvalid₂ : r₂.pool.Valid) (hlive : r₂.pool.live ⊆ r.pool.live)
    (hdescribes : Describes image handlers code addr first length fun x => x ∈ r₂.pool.live ∨ x = .sp)
    (hsame : ∀ s t : State, (∀ x ∈ r.pool.live, t.reg x = s.reg x) → first t = first s ∧ length t = length s)
    (h : slotAddress slot r₂ = .ok q r') :
    r₂.pool.Takes r'.pool q ∧ ∃ code', Extends r r' code' ∧ Runs image handlers code'
      (fun s => Framed r s ∧ (slotWord image r slot s).toNat + 3 ≤ s.memory.size ∧
        (frameSlot r s < (slotWord image r slot s).toNat ∨
          (slotWord image r slot s).toNat + 3 ≤ frameSlot r s))
      fun s t => t.reg q = slotWord image r slot s ∧
        (∀ y, t.word y = if y = (slotWord image r slot s).toNat + 1 ∨
            y = (slotWord image r slot s).toNat + 2 then length s
          else if y = (slotWord image r slot s).toNat then first s else s.word y) ∧
        ∀ x, x ∈ r₂.pool.live ∨ x = .sp → t.reg x = s.reg x := by
  obtain ⟨htakes₁, codeA, hr₁, hrunA⟩ := slotAddress_runs image handlers haddr
  obtain ⟨htakes, codeQ, hr', hrunQ⟩ := slotAddress_runs image handlers h
  have hextA : Extends r r₂ (codeA ++ code) := (Extends.of_pool hr₁).trans hext
  refine ⟨htakes, codeA ++ code ++ codeQ, hextA.trans (.of_pool hr'), ?_⟩
  rintro a s hp hs hone ⟨hframed, hin, hout⟩
  simp only [Machine.placed_append, Machine.totalSize_append, ← Nat.add_assoc] at hp ⊢
  obtain ⟨⟨hpA, hpcode⟩, hpQ⟩ := hp
  obtain ⟨m₁, hrun₁, hpc₁, haddr₁, hreg₁, hmemory₁, -⟩ := hrunA a s hpA hs hone hframed
  generalize hd : slotWord image r slot s = d at hin hout haddr₁ ⊢
  have hone₁ := hrun₁.one hone
  obtain ⟨hfirst, hlength⟩ := hsame s m₁ fun x hx => hreg₁ x (.inl hx)
  obtain ⟨m₂, hrun₂, hpc₂, hword₂, hreg₂⟩ := hdescribes _ m₁ hpcode hpc₁ hone₁
    (by simp only [haddr₁, hmemory₁]; exact ⟨hin, hframed.2⟩)
  simp only [haddr₁, hfirst, hlength, State.word_eq_of_memory hmemory₁] at hword₂
  have hkept {x : Register} (hx : x ∈ r₂.pool.live ∨ x = .sp) : m₂.reg x = s.reg x := by
    rw [hreg₂ x hx]
    obtain hx | rfl := hx
    · exact hreg₁ x (.inl (hlive hx))
    · exact hreg₁ .sp (.sp (htakes₁.valid hvalid))
  have hrun := hrun₁.trans hrun₂
  -- The frame pointer is not in the descriptor, so the temporary is found again.
  have hslot₂ : frameSlot r₂ m₂ = frameSlot r s := by
    rw [frameSlot, frameSlot, hextA.depth, State.stack, hkept (.inr rfl), State.stack]
  have hframe₂ : m₂.word (frameSlot r₂ m₂) = s.word (frameSlot r s) := by
    rw [hslot₂, hword₂, if_neg (by omega), if_neg (by omega)]
  have hkind := Frame.sameKind_of_homes hextA.homes
  obtain ⟨t, hrun₃, hpc, hq, hreg, hmemory, -⟩ :=
    hrunQ _ m₂ hpQ hpc₂ (hrun.one hone) (hframed.congr hkind hslot₂ hrun.size)
  refine ⟨t, hrun.trans hrun₃, hpc, ?_, fun y => ?_, fun x hx => ?_⟩
  · rw [hq, slotWord_congr image hkind hframe₂, hd]
  · rw [State.word_eq_of_memory hmemory, hword₂]
  · rw [hreg x ?_, hkept hx]
    obtain hx | rfl := hx
    · exact .inl hx
    · exact .sp (htakes.valid hvalid₂)

/-- What is generated for a descriptor behind its source: the words of the descriptor come from the register
of the source and from a constant, and the address of its temporary is left in a new register. -/
theorem describeSource_runs (image : Image) (handlers : Handlers) {r₂ : Routine} {x q : Register} {slot : Slot}
    {n : Int} (hvalid : r.pool.Valid) (hx : x ∈ r.pool.live) (haddr : slotAddress slot r = .ok addr r₂)
    (h : (do
      emit .store [addr, x]
      release x
      let count ← allocate
      loadCount count n
      storeDescriptor addr count
      release count
      release addr
      slotAddress slot : Gen Register) r₂ = .ok q r') :
    r'.pool.live = q :: r.pool.live.erase x ∧ r'.pool.Valid ∧ ∃ code, Extends r r' code ∧
      Runs image handlers code
        (fun s => Framed r s ∧ (slotWord image r slot s).toNat + 3 ≤ s.memory.size ∧
          (frameSlot r s < (slotWord image r slot s).toNat ∨
            (slotWord image r slot s).toNat + 3 ≤ frameSlot r s))
        fun s t => t.reg q = slotWord image r slot s ∧
          (∀ y, t.word y = if y = (slotWord image r slot s).toNat + 1 ∨
              y = (slotWord image r slot s).toNat + 2 then UInt32.ofNat n.toNat
            else if y = (slotWord image r slot s).toNat then s.reg x else s.word y) ∧
          ∀ y, y ∈ r.pool.live.erase x ∨ y = .sp → t.reg y = s.reg y := by
  obtain ⟨htakes₁, codeA, hr₂, -⟩ := slotAddress_runs image handlers haddr
  simp only [emit_front, release_front, allocate_front, loadCount_front] at h
  obtain ⟨-, p₁, hp₁, count, p₂, hcount, -, -, h⟩ := h
  rw [bind_ok] at h
  obtain ⟨_, r₄, hstore, h⟩ := h
  simp only [release_front] at h
  obtain ⟨p₃, hp₃, p₄, hp₄, h⟩ := h
  have htakesN := Pool.Takes.of_allocate hcount
  have hne : addr ≠ x := fun heq => htakes₁.new (heq ▸ hx)
  -- The registers: the address without the source, then the count, then neither.
  have hpool₁ : p₁.live = addr :: r.pool.live.erase x := by
    rw [(Pool.release_eq_ok hp₁).2, Routine.plus_pool, htakes₁.live,
      List.erase_cons_tail (by simpa using hne)]
  have haddr₁ : addr ∈ p₁.live := hpool₁ ▸ List.mem_cons_self
  have hcountaddr : count ≠ addr := fun heq => htakesN.new (heq ▸ haddr₁)
  obtain ⟨codeS, hr₄, hrunS⟩ :=
    storeDescriptor_runs htakes₁.writable htakesN.writable.lt hcountaddr hstore
  rw [hr₄] at hp₃
  have hkept₃ : p₁.Kept p₃ := .around hcount (.refl p₂) hp₃
  have hvalid₁ : p₁.Valid := (htakes₁.valid hvalid).release hp₁
  have hlive₄ : p₄.live = r.pool.live.erase x := by
    rw [(Pool.release_eq_ok hp₄).2, Routine.withPool_pool, hkept₃.live, hpool₁, List.erase_cons_head]
  have hvalid₄ : p₄.Valid := (hkept₃.valid hvalid₁).release hp₄
  have hext : Extends r₂ ((r₄.withPool p₃).withPool p₄)
      (ins .store [addr, x] :: .constant count (.immediate (UInt32.ofNat n.toNat)) :: codeS) := by
    refine .of_pool (p := p₄) ?_
    rw [hr₄]
    simp
  have hdescribes := describeConstant_runs (w := UInt32.ofNat n.toNat) htakes₁.writable
    (Pool.writable_of_mem (hvalid.allocatable hx)).lt htakesN.writable hcountaddr (hrunS image handlers)
  have hkept {y : Register} (hy : y ∈ p₄.live ∨ y = .sp) : y ≠ addr ∧ y ≠ count := by
    rw [hlive₄] at hy
    obtain hy | rfl := hy
    · exact ⟨fun heq => htakes₁.new (heq ▸ List.mem_of_mem_erase hy),
        fun heq => htakesN.new (heq ▸ hpool₁ ▸ List.mem_cons_of_mem addr hy)⟩
    · exact ⟨(Pool.ne_sp_of_mem htakes₁.mem).symm, (Pool.ne_sp_of_mem htakesN.mem).symm⟩
  obtain ⟨htakes, code, hextends, hruns⟩ := describeSlot_runs image handlers (·.reg x)
    (fun _ => UInt32.ofNat n.toNat) hvalid haddr hext hvalid₄
    (by rw [Routine.withPool_pool, hlive₄]; exact List.erase_subset)
    (fun a s hp hs hone hpre => by
      obtain ⟨t, hrun, hpc, hword, hreg⟩ := hdescribes a s hp hs hone hpre
      exact ⟨t, hrun, hpc, hword, fun y hy => hreg y (hkept hy)⟩)
    (fun s t hsame => ⟨hsame x hx, rfl⟩) h
  rw [Routine.withPool_pool] at htakes hruns
  rw [hlive₄] at hruns
  exact ⟨by rw [htakes.live, hlive₄], htakes.valid hvalid₄, code, hextends, hruns⟩

/-- A descriptor is written in its temporary: the address of the first element, and the number of
elements as length and capacity. Elsewhere nothing is written behind the code of the source, of which
`I` holds. -/
theorem operandAt_descriptor {image : Image} {handlers : Handlers} {shapes : Shapes}
    {r₀ : Routine} {s₀ : State} {low high : Nat} {source : Expr} {n : Int} {lvalue : Bool}
    {d data : Word} {I : State → State → Prop} (hs₀ : Framed r₀ s₀)
    (hout : frameSlot r₀ s₀ < low ∨ high ≤ frameSlot r₀ s₀) (hlow : low ≤ d.toNat)
    (hhigh : d.toNat + 3 ≤ high) (hin : d.toNat + 3 ≤ s₀.memory.size)
    (hslot : ∀ q₁ r₁ slot r₂, compileExpr shapes source false r = .ok q₁ r₁ →
      temporary sliceSize r₁ = .ok slot r₂ → slotWord image r₀ slot s₀ = d)
    (hsource : OperandAt image handlers r₀ s₀ low high r (compileExpr shapes source false)
      fun s t v => (∀ x, x < low ∨ high ≤ x → t.word x = s.word x) ∧ v = data ∧ I s t) :
    OperandAt image handlers r₀ s₀ low high r (compileExpr shapes (.descriptor source n) lvalue)
      fun s t v => (∀ x, x < low ∨ high ≤ x → t.word x = s.word x) ∧ v = d ∧
        t.word d.toNat = data ∧ t.word (d.toNat + 1) = UInt32.ofNat n.toNat ∧
          t.word (d.toNat + 2) = UInt32.ofNat n.toNat ∧
          ∃ m, I s m ∧ ∀ x, x < d.toNat ∨ d.toNat + 3 ≤ x → t.word x = m.word x := by
  intro q r' hvalid halong h
  simp only [compileExpr] at h
  rw [bind_ok] at h
  obtain ⟨x, r₁, hx, h⟩ := h
  rw [bind_ok] at h
  obtain ⟨slot, r₂, htemporary, h⟩ := h
  rw [bind_ok] at h
  obtain ⟨addr, r₃, haddr, h⟩ := h
  obtain ⟨codeX, hyx, hrunX⟩ := hsource x r₁ hvalid halong hx
  obtain ⟨hext₂, hpool₂⟩ := Extends.temporary htemporary
  obtain ⟨hlive, hvalid', code, hext, hrunD⟩ := describeSource_runs image handlers
    (hpool₂ ▸ hyx.valid) (hpool₂ ▸ hyx.mem_live) haddr h
  rw [hpool₂] at hlive hrunD
  have herase : (r₁.pool.live.erase x).Perm r.pool.live := by
    refine (hyx.live.erase x).trans ?_
    rw [List.erase_cons_head]
  refine ⟨codeX ++ code, { hyx.toExtends.trans (hext₂.trans hext) with
    live := hlive ▸ herase.cons q
    valid := hvalid' }, fun a s hp hs hone hamid => ?_⟩
  simp only [Machine.placed_append, Machine.totalSize_append, ← Nat.add_assoc] at hp ⊢
  obtain ⟨m, hrun₁, hpc₁, hsteady, hother, hdata, hinner⟩ := hrunX a s hp.1 hs hone hamid
  have hamid₁ := hamid.step (hyx.toExtends.trans hext₂) hrun₁ hsteady.stack hother
  have hd : slotWord image r₂ slot m = d := (hamid₁.slotWord hout).trans (hslot x r₁ slot r₂ hx htemporary)
  obtain ⟨t, hrun₂, hpc₂, hq, hword, hreg⟩ := hrunD _ m hp.2 hpc₁ (hrun₁.one hone)
    ⟨hamid₁.framed hs₀, by rw [hd, hamid₁.reaches.size]; exact hin, by rw [hd, hamid₁.frameSlot]; omega⟩
  simp only [hd, hdata] at hq hword
  have hother₂ (y : Nat) (hy : y < d.toNat ∨ d.toNat + 3 ≤ y) : t.word y = m.word y := by
    rw [hword, if_neg (by omega), if_neg (by omega)]
  refine ⟨t, hrun₁.trans hrun₂, hpc₂, ⟨?_, fun y hy => ?_, ?_⟩, fun y hy => ?_, hq, ?_, ?_, ?_,
    m, hinner, hother₂⟩
  · rw [State.stack, hreg .sp (.inr rfl), ← State.stack, hsteady.stack]
  · rw [hreg y (.inl (herase.symm.subset hy)), hsteady.reg y hy]
  · rw [hother₂ _ (by rw [hamid.frameSlot]; omega), hsteady.frame]
  · exact (hother₂ y (by omega)).trans (hother y hy)
  · rw [hword, if_neg (by omega), if_pos rfl]
  · rw [hword, if_pos (.inl rfl)]
  · rw [hword, if_pos (.inr rfl)]

end Descriptors

/-! ## Arrays and the slices they decay to -/

/-- The code of an index expression that is generated for a routine checks and addresses an element
in a state `s` of the routine, wherever the code is in place. -/
def IndexCode (image : Image) (handlers : Handlers) (shapes : Shapes) (t : Ty) (lvalue : Bool)
    (r : Routine) (s : State) (data : Word) (n k : Nat) (i : Word) (x : Gen Register) : Prop :=
  ∀ q r', x r = .ok q r' → ∃ code, Yields r r' q code ∧
    ∀ a, Placed image a code → s.pc = UInt32.ofNat a → s.reg .one = 1 →
      Indexes image handlers shapes t lvalue r data n k i q (UInt32.ofNat (a + totalSize code)) s

/-- Checked indexing. Take an array of `n` elements of size `k` that lies in memory, under a name, and
a position whose code leaves `i` and does not write to the temporary at `d`. The code of the index
expression checks the index against `n` and addresses the element. So does the code that indexes the
slice built in that temporary from the array itself, or from any expression whose value is the address
of the array. -/
theorem checked_indexing {image : Image} (handlers : Handlers) {shapes : Shapes} {r : Routine}
    {s : State} {st : Storage} {name : String} {array t : Ty} {position : Expr} {lvalue : Bool}
    {n k low high : Nat} {data i d : Word} (hvalid : r.pool.Valid)
    (hname : symbol r.name = r.name) (hframed : Framed r s) (hkind : st.kind ≠ .function)
    (hdata : storageWord image r st s = data) (harray : shapes.isIntegral array = .ok false)
    (hn : n < 4294967296) (hsize : shapes.size t = .ok (k : Int))
    (hword : lvalue = false → shapes.isIntegral t = .ok true → 0 < k)
    (hblock : data.toNat + n * k ≤ s.memory.size)
    (hout : frameSlot r s < low ∨ high ≤ frameSlot r s) (hlow : low ≤ d.toNat)
    (hhigh : d.toNat + 3 ≤ high) (hin : d.toNat + 3 ≤ s.memory.size)
    (hposition : Operand image handlers r s low high (compileExpr shapes position false)
      fun s t v => v = i ∧ ∀ x, d.toNat ≤ x → x < d.toNat + 3 → t.word x = s.word x) :
    IndexCode image handlers shapes t lvalue r s data n k i
      (compileExpr shapes (.index (.name name (some st) array) position false (.array n) t) lvalue) ∧
    ∀ source, (source = .name name (some st) array ∨
        OperandAt image handlers r s low high r (compileExpr shapes source false)
          fun s t v => (∀ x, x < low ∨ high ≤ x → t.word x = s.word x) ∧ v = data) →
      (∀ q₁ r₁ slot r₂, compileExpr shapes source false r = .ok q₁ r₁ →
        temporary sliceSize r₁ = .ok slot r₂ → slotWord image r slot s = d) →
      IndexCode image handlers shapes t lvalue r s data n k i
        (compileExpr shapes (.index (.descriptor source n) position false .slice t) lvalue) := by
  have hvariable (asked : Bool) :
      OperandAt image handlers r s low high r (compileExpr shapes (.name name (some st) array) asked)
        fun s t v => (∀ x, x < low ∨ high ≤ x → t.word x = s.word x) ∧ v = data := by
    have hload : asked = false → shapes.isIntegral array = .ok true →
        (storageWord image r st s).toNat < s.memory.size := fun _ h => by
      rw [harray] at h
      cases h
    refine OperandAt.imp (operand_variable hkind hframed hout hload r)
      fun s' t' v _ _ hpost => ?_
    refine ⟨fun x _ => by rw [State.word_eq_of_memory hpost.1], ?_⟩
    rw [hpost.2, hdata]
    cases asked <;> simp [valueAt, harray]
  constructor
  · intro q r' h
    obtain ⟨code, hyields, hruns⟩ := index_runs (show IndexKind.array n ≠ .pointer by simp)
      hvalid (.refl r) hname hn hsize hblock hframed.2 hword
      ((hvariable true).imp fun _ _ _ _ _ hpost => ⟨hpost.1, hpost.2, rfl, rfl⟩)
      (fun r' => (hposition r').imp fun _ _ _ _ _ hpost => ⟨hpost.1, id⟩) h
    exact ⟨code, hyields, fun a hp hs hone => hruns a s hp hs hone (.refl r s)⟩
  · intro source hsource hslot q r' h
    have hoperand : OperandAt image handlers r s low high r (compileExpr shapes source false)
        fun s t v => (∀ x, x < low ∨ high ≤ x → t.word x = s.word x) ∧ v = data := by
      rcases hsource with heq | hsource
      · exact heq ▸ hvariable false
      · exact hsource
    have hnext : (d + 1).toNat = d.toNat + 1 := Machine.toNat_add_one (by have := hframed.2; omega)
    have hbase : OperandAt image handlers r s low high r
        (compileExpr shapes (.descriptor source n) true) fun s t v =>
          (∀ x, x < low ∨ high ≤ x → t.word x = s.word x) ∧ v = d ∧
            Designates .slice t d data n := by
      refine (operandAt_descriptor (I := fun _ _ => True) hframed hout hlow hhigh hin hslot
        (hoperand.imp fun _ _ _ _ _ hpost => ⟨hpost.1, hpost.2, trivial⟩)).imp
        fun s' t' v hamid hrun hpost => ?_
      obtain ⟨hother, hv, hfirst, hsecond, -⟩ := hpost
      have hsize' : t'.memory.size = s.memory.size := hrun.size.trans hamid.reaches.size
      refine ⟨hother, hv, ?_, ?_, hfirst, ?_⟩
      · rw [hsize']
        omega
      · rw [hsize', hnext]
        omega
      · rw [hnext, hsecond, Int.toNat_natCast]
    have hkeeps : Operand image handlers r s low high (compileExpr shapes position false)
        fun s t v => v = i ∧ (Designates .slice s d data n → Designates .slice t d data n) := by
      refine fun r' => (hposition r').imp fun s' t' v hamid hrun hpost => ⟨hpost.1, fun hbase => ?_⟩
      simp only [Designates, hnext, hrun.size] at hbase ⊢
      rw [hpost.2 _ (by omega) (by omega), hpost.2 _ (by omega) (by omega)]
      exact hbase
    obtain ⟨code, hyields, hruns⟩ := index_runs (show IndexKind.slice ≠ .pointer by simp)
      hvalid (.refl r) hname hn hsize hblock hframed.2 hword hbase hkeeps h
    exact ⟨code, hyields, fun a hp hs hone => hruns a s hp hs hone (.refl r s)⟩

/-- Three elements of two words, on top of a frame. -/
def rows : Storage :=
  { id := 0, name := "rows", type := .array (.array .byte 2 none) 3 none, kind := .automatic
    location := none }

/-- A function with an array in its frame. -/
def indexer : Routine := Routine.create "f" (.stack { locals := [(0, 6)], size := 6 })

/-- An element of the array, through its name. -/
def directly (i : Word) : Gen Register :=
  compileExpr (.ofStore {}) (.index (.name "rows" (some rows) rows.type) (.integer i) false (.array 3)
    (.array .byte 2 none)) true

/-- An element of the array, through a slice. -/
def decayed (i : Word) : Gen Register :=
  compileExpr (.ofStore {}) (.index (.descriptor (.name "rows" (some rows) rows.type) 3) (.integer i)
    false .slice (.array .byte 2 none)) true

/-- What it comes to to index the array. -/
def IndexesRows (image : Image) (i : Word) (x : Gen Register) : Prop :=
  IndexCode image [] (.ofStore {}) (.array .byte 2 none) true indexer (frameStart image) 50 3 2 i x

/-- Code that indexes the array does so from the start of its image. -/
theorem IndexesRows.exists_image {i : Word} {x : Gen Register}
    (h : ∀ image : Image, image.memory.size = 64 → IndexesRows image i x)
    (hx : assembles x indexer = true) :
    ∃ q r' image back, x indexer = .ok q r' ∧ Image.assemble r'.code.toList 64 = .ok image ∧
      Indexes image [] (.ofStore {}) (.array .byte 2 none) true indexer 50 3 2 i q back
        (frameStart image) := by
  obtain ⟨q, r', image, hgenerated, himage⟩ := exists_of_assembles hx
  have hmemory := Machine.size_memory_of_assemble himage
  obtain ⟨code, hyields, hindexes⟩ := h image hmemory q r' hgenerated
  have hcode : r'.code.toList = code := by simp [hyields.code, indexer, Routine.create]
  obtain ⟨-, hle, -⟩ := Machine.assemble_ok himage
  have hplaced := Machine.placed_of_assemble himage (by omega)
  exact ⟨q, r', image, _, hgenerated, himage, hindexes 0 (hcode ▸ hplaced) rfl rfl⟩

/-- The last element stands at 54, four words behind the first, both for the array and for the slice
it decays to; the index behind it stops the machine in both. -/
theorem checked_indexing_last :
    (∀ x ∈ [directly 2, decayed 2], ∃ q r' image t, x indexer = .ok q r' ∧
      Image.assemble r'.code.toList 64 = .ok image ∧ Reaches image [] (frameStart image) t ∧
        t.reg q = 54) ∧
    ∀ x ∈ [directly 3, decayed 3], ∃ q r' image, x indexer = .ok q r' ∧
      Image.assemble r'.code.toList 64 = .ok image ∧
        Halts image [] (frameStart image) Machine.faultBounds := by
  have hboth (i : Word) : ∀ x ∈ [directly i, decayed i], ∀ image : Image, image.memory.size = 64 →
      IndexesRows image i x := by
    simp only [List.forall_mem_cons, List.not_mem_nil, false_imp_iff, implies_true, and_true,
      ← forall_and]
    intro image hmemory
    have hsize := frameStart_size hmemory
    have hframe : frameSlot indexer (frameStart image) = 46 := rfl
    have hpointer := frameStart_word hmemory
    have hposition : Operand image [] indexer (frameStart image) 47 50
        (compileExpr (.ofStore {}) (.integer i) false) fun s t v =>
          v = i ∧ ∀ x, (47 : Word).toNat ≤ x → x < (47 : Word).toNat + 3 → t.word x = s.word x :=
      fun r => (operand_integer i r).imp fun _ _ _ _ _ hpost =>
        ⟨hpost.2, fun x _ _ => by rw [State.word_eq_of_memory hpost.1]⟩
    obtain ⟨harray, hslice⟩ := @checked_indexing image [] (.ofStore {}) indexer (frameStart image)
      rows "rows" rows.type (.array .byte 2 none) (.integer i) true 3 2 47 50 50 i 47 Pool.valid_empty
      (by decide) (frameStart_framed hmemory rfl) (by decide)
      (congrArg (· - 6) hpointer) rfl (by decide) rfl nofun (by rw [hsize]; decide)
      (by rw [hframe]; decide) (by decide) (by decide) (by rw [hsize]; decide) hposition
    refine ⟨harray, hslice _ (.inl rfl) fun q₁ r₁ slot r₂ h₁ h₂ => ?_⟩
    have hnine : slot.offset = 9 := @offset_of_givesOffset
      (compileExpr (.ofStore {}) (.name "rows" (some rows) rows.type) false >>=
        fun _ => temporary sliceSize) indexer _ _ _ (by decide +kernel)
      (bind_ok.2 ⟨q₁, r₁, h₁, h₂⟩)
    rw [slotWord]
    simp only [indexer, Routine.create, hnine]
    exact congrArg (· - 9) hpointer
  constructor
  · intro x hx
    have hassembles : ∀ x ∈ [directly 2, decayed 2], assembles x indexer = true := by decide +kernel
    obtain ⟨q, r', image, back, hgenerated, himage, hindexes⟩ :=
      IndexesRows.exists_image (hboth 2 x hx) (hassembles x hx)
    obtain ⟨t, element, hrun, -, -, hq, helement, -⟩ := hindexes.computes (by decide)
    exact ⟨q, r', image, t, hgenerated, himage, hrun, hq.trans (UInt32.toNat_inj.1 helement)⟩
  · intro x hx
    have hassembles : ∀ x ∈ [directly 3, decayed 3], assembles x indexer = true := by decide +kernel
    obtain ⟨q, r', image, back, hgenerated, himage, hindexes⟩ :=
      IndexesRows.exists_image (hboth 3 x hx) (hassembles x hx)
    exact ⟨q, r', image, hgenerated, himage, hindexes.faults (by decide)⟩

end Qll.Codegen
