import Qll.Proofs.Codegen.Evaluating
import Qll.Proofs.Types.Representation

/-!
# Struct values at run time

The members of a struct stand one behind the other, in the order of their declaration. A struct value
is built in a temporary: first the given fields, in the order written, each at the offset of its
member, then zeros for the members left out. As the members cut the temporary into disjoint parts, each
of its words is written once, whatever the order of the fields.
-/

/-! ## Layout -/

namespace Qll.Types

open Machine (addExtent wrap_of_bounds)
open Qll.Computation

/-- A member, the sum of the sizes in front of it, and its size. -/
inductive Part : List (Member Ty) → List Nat → Member Ty → Nat → Nat → Prop
  | head {m ms k ks} : Part (m :: ms) (k :: ks) m 0 k
  | tail {m m' ms k ks offset size} (h : Part ms ks m offset size) :
      Part (m' :: ms) (k :: ks) m (k + offset) size

namespace Part

variable {ms : List (Member Ty)} {ks : List Nat} {m m' : Member Ty}
  {offset offset' size size' x : Nat}

/-- A part belongs to a member. -/
theorem mem (h : Part ms ks m offset size) : m ∈ ms := by
  induction h with
  | head => exact List.mem_cons_self
  | tail _ ih => exact List.mem_cons_of_mem _ ih

/-- A part lies inside the whole. -/
theorem le (h : Part ms ks m offset size) : offset + size ≤ ks.sum := by
  induction h with
  | head => simp
  | tail _ ih =>
    rw [List.sum_cons]
    omega

/-- Every member has a part. -/
theorem exists_of_mem (hlength : ms.length = ks.length) (h : m ∈ ms) :
    ∃ offset size, Part ms ks m offset size := by
  induction ms generalizing ks with
  | nil => cases h
  | cons m' ms ih =>
    cases ks with
    | nil => cases hlength
    | cons k ks =>
      rcases List.mem_cons.1 h with rfl | h
      · exact ⟨0, k, .head⟩
      · obtain ⟨offset, size, hpart⟩ := ih (Nat.succ.inj hlength) h
        exact ⟨k + offset, size, .tail hpart⟩

/-- Parts of members with different names have no word in common. -/
theorem apart (h : Part ms ks m offset size) (h' : Part ms ks m' offset' size')
    (hne : m.name ≠ m'.name) : offset + size ≤ offset' ∨ offset' + size' ≤ offset := by
  induction h generalizing offset' with
  | head =>
    cases h' with
    | head => exact absurd rfl hne
    | tail h' => exact .inl (by omega)
  | tail h ih =>
    cases h' with
    | head => exact .inr (by omega)
    | tail h' =>
      have := ih h' hne
      omega

/-- If no two members share a name, a name has one part. -/
theorem unique (hnames : (ms.map (·.name)).Nodup) (h : Part ms ks m offset size)
    (h' : Part ms ks m' offset' size') (hname : m.name = m'.name) :
    m = m' ∧ offset = offset' ∧ size = size' := by
  induction h generalizing offset' with
  | @head m ms k ks =>
    cases h' with
    | head => exact ⟨rfl, rfl, rfl⟩
    | tail h' =>
      refine absurd ?_ (List.nodup_cons.1 hnames).1
      exact List.mem_map.2 ⟨m', h'.mem, hname.symm⟩
  | tail h ih =>
    cases h' with
    | head =>
      refine absurd ?_ (List.nodup_cons.1 hnames).1
      exact List.mem_map.2 ⟨_, h.mem, hname⟩
    | tail h' =>
      obtain ⟨hm, hoffset, hsize⟩ := ih (List.nodup_cons.1 hnames).2 h' hname
      exact ⟨hm, by rw [hoffset], hsize⟩

/-- Every word of the whole is a word of a part. -/
theorem exists_of_lt (hlength : ms.length = ks.length) (h : x < ks.sum) :
    ∃ m offset size, Part ms ks m offset size ∧ offset ≤ x ∧ x < offset + size := by
  induction ms generalizing ks x with
  | nil =>
    cases ks with
    | nil => exact absurd h (Nat.not_lt_zero x)
    | cons k ks => cases hlength
  | cons m ms ih =>
    cases ks with
    | nil => cases hlength
    | cons k ks =>
      rw [List.sum_cons] at h
      by_cases hx : x < k
      · exact ⟨m, 0, k, .head, by omega, by omega⟩
      · obtain ⟨m', offset, size, hpart, hlow, hhigh⟩ :=
          ih (x := x - k) (Nat.succ.inj hlength) (by omega)
        exact ⟨m', k + offset, size, .tail hpart, by omega, by omega⟩

end Part

/-- The members of a struct type have different names, sizes that are found without adding to the
store, and a total size that can be represented. -/
structure Laid (s : Store) (ms : List (Member Ty)) (ks : List Nat) : Prop where
  names : (ms.map (·.name)).Nodup
  sizes : ms.Forall₂ (fun m (k : Nat) => HasSize s m.type k) ks
  fits : ks.sum < 9223372036854775808

/-- Sizes that can be represented are added as they are. -/
theorem addExtent_natCast {a b : Nat} (h : a + b < 9223372036854775808) :
    addExtent a b = ((a + b : Nat) : Int) := by
  rw [addExtent, wrap_of_bounds (by omega) (by omega), Nat.cast_add]

/-- The sum of sizes that can be represented. -/
theorem foldl_addExtent (ks : List Nat) (a : Nat) (h : a + ks.sum < 9223372036854775808) :
    (ks.map fun k : Nat => (k : Int)).foldl addExtent a = ((a + ks.sum : Nat) : Int) := by
  induction ks generalizing a with
  | nil => simp
  | cons k ks ih =>
    rw [List.sum_cons] at h
    rw [List.map_cons, List.foldl_cons, addExtent_natCast (by omega), ih _ (by omega), List.sum_cons,
      Nat.add_assoc]

/-- A member is found at the sum of the sizes in front of it. -/
theorem Part.findMember {s : Store} {ms : List (Member Ty)} {ks : List Nat} {m : Member Ty}
    {offset size : Nat} (hnames : (ms.map (·.name)).Nodup)
    (hsizes : ms.Forall₂ (fun m (k : Nat) => HasSize s m.type k) ks)
    (h : Part ms ks m offset size) (base : Nat) (hfits : base + ks.sum < 9223372036854775808) :
    ∃ n, findMemberWithin n ms m.name base s = .ok (some (m, ((base + offset : Nat) : Int))) s := by
  induction h generalizing base with
  | head => exact ⟨1, by unfold findMemberWithin; simp⟩
  | @tail m m' ms k ks offset size hpart ih =>
    obtain ⟨hnot, hnames⟩ := List.nodup_cons.1 hnames
    cases hsizes with
    | cons hk hsizes =>
      rw [List.sum_cons] at hfits
      obtain ⟨i, hi⟩ := ih hnames hsizes (base + k) (by omega)
      obtain ⟨j, hj⟩ := hk
      refine ⟨max i j + 1, ?_⟩
      unfold findMemberWithin
      have hne : m'.name ≠ m.name := fun heq => hnot (List.mem_map.2 ⟨m, hpart.mem, heq.symm⟩)
      dsimp only
      rw [if_neg hne]
      refine bind_ok.2 ⟨k, s, sizeWithin_mono (Nat.le_max_right i j) hj, ?_⟩
      rw [addExtent_natCast (by omega), ← Nat.add_assoc]
      exact findMemberWithin_mono (Nat.le_max_left i j) hi

namespace Laid

variable {s s' : Store} {ms : List (Member Ty)} {ks : List Nat} {m : Member Ty} {offset size : Nat}
  {k : Int} {l : Option Source.Location} {r : Option (Member Ty × Int)}

/-- Members and sizes correspond. -/
theorem length (h : Laid s ms ks) : ms.length = ks.length := h.sizes.length_eq

/-- A part has the size of its member. -/
theorem part (h : Laid s ms ks) (hpart : Part ms ks m offset size) : HasSize s m.type size := by
  have hsizes := h.sizes
  clear h
  induction hpart with
  | head => exact (List.forall₂_cons.1 hsizes).1
  | tail _ ih => exact ih (List.forall₂_cons.1 hsizes).2

/-- The size of a struct is the sum of the sizes of its members. -/
theorem struct (h : Laid s ms ks) : HasSize s (.struct ms l) (ks.sum : Nat) := by
  have hsum := foldl_addExtent ks 0 (by have := h.fits; omega)
  rw [Nat.zero_add, Nat.cast_zero] at hsum
  exact hsum ▸ hasSize_struct (List.forall₂_map_right_iff.2 h.sizes)

/-- A size that is found is the size. -/
theorem size_eq {t : Ty} (h : HasSize s t k) {k' : Int} (hsize : Types.size t s = .ok k' s') :
    k' = k := by
  obtain ⟨n, _, hn, hsize⟩ := bind_ok.1 hsize
  obtain ⟨rfl, rfl⟩ := limit_ok.1 hn
  obtain ⟨m, hm⟩ := h
  have hmax := sizeWithin_mono (Nat.le_max_left s.limit m) hsize
  rw [sizeWithin_mono (Nat.le_max_right s.limit m) hm] at hmax
  exact (EStateM.Result.ok.inj hmax).1.symm

/-- A search for a member finds its part. -/
theorem findMember_eq (h : Laid s ms ks) (hpart : Part ms ks m offset size)
    (hfind : Types.findMember ms m.name s = .ok r s') : r = some (m, (offset : Int)) := by
  obtain ⟨n, _, hn, hfind⟩ := bind_ok.1 hfind
  obtain ⟨rfl, rfl⟩ := limit_ok.1 hn
  obtain ⟨j, hj⟩ := hpart.findMember h.names h.sizes 0 (by have := h.fits; omega)
  have hmax := findMemberWithin_mono (Nat.le_max_left s.limit j) hfind
  rw [Nat.cast_zero.symm, findMemberWithin_mono (Nat.le_max_right s.limit j) hj, Nat.zero_add] at hmax
  exact (EStateM.Result.ok.inj hmax).1.symm

end Laid

end Qll.Types

namespace Qll.Codegen

open Assembly (Directive Value totalSize)
open Checked (Expr)
open Machine (Register Opcode Word Image Handlers State Placed Reaches ins)
open Qll.Types (Ty Member Store TypeM Part)
open Qll.Computation

/-! ## What code generation is told about a struct -/

/-- Whenever a size, a member or the kind of a value is asked for, the answer fits the layout. -/
structure Shapes.LaysOut (shapes : Shapes) (ms : List (Member Ty)) (ks : List Nat) : Prop where
  names : (ms.map (·.name)).Nodup
  length : ms.length = ks.length
  struct : ∀ {k}, shapes.size (.struct ms none) = .ok k → k = ks.sum
  size : ∀ {m offset size k}, Part ms ks m offset size → shapes.size m.type = .ok k → k = size
  member : ∀ {m offset size r}, Part ms ks m offset size → shapes.member ms m.name = .ok r →
    r = some (m, (offset : Int))
  word : ∀ {m offset size}, Part ms ks m offset size → shapes.isIntegral m.type = .ok true → size = 1

/-- An answer is what a computation gives. -/
theorem answer_ok {α : Type} {s : Store} {x : TypeM α} {a : α} :
    answer s x = .ok a ↔ ∃ s', x s = .ok a s' := by
  unfold answer
  cases x s <;> simp

/-- The answers of a store fit the layout. -/
theorem Shapes.laysOut_ofStore {store : Store} {ms : List (Member Ty)} {ks : List Nat}
    (h : Types.Laid store ms ks) : (Shapes.ofStore store).LaysOut ms ks where
  names := h.names
  length := h.length
  struct hsize := by
    obtain ⟨_, hsize⟩ := answer_ok.1 hsize
    exact Types.Laid.size_eq h.struct hsize
  size hpart hsize := by
    obtain ⟨_, hsize⟩ := answer_ok.1 hsize
    exact Types.Laid.size_eq (h.part hpart) hsize
  member hpart hfind := by
    obtain ⟨_, hfind⟩ := answer_ok.1 hfind
    exact h.findMember_eq hpart hfind
  word hpart hintegral := by
    obtain ⟨_, hintegral⟩ := answer_ok.1 hintegral
    exact Int.natCast_inj.1 (Types.size_of_isIntegral hintegral (h.part hpart))

/-! ## Words written to an address -/

/-- From one state to another the `n` words from `a` on became those of `val`, and no other word
changed. -/
structure Wrote (a n : Nat) (val : Nat → Word) (s t : State) : Prop where
  word : ∀ i < n, t.word (a + i) = val i
  other : ∀ x, x < a ∨ a + n ≤ x → t.word x = s.word x

namespace Wrote

variable {a b n : Nat} {w : Word} {val : Nat → Word} {s t u : State}

/-- Nothing is written. -/
theorem zero (hmemory : t.memory = s.memory) : Wrote a 0 val s t :=
  ⟨fun _ hi => absurd hi (Nat.not_lt_zero _), fun _ _ => by rw [State.word_eq_of_memory hmemory]⟩

/-- One word is written. -/
theorem put {pc : Word} (ha : a < s.memory.size) : Wrote a 1 (fun _ => w) s (s.put a w pc) where
  word i hi := by
    obtain rfl := Nat.lt_one_iff.1 hi
    exact State.word_put_self _ _ _ _ ha
  other x hx := State.word_put_of_ne _ _ _ _ _ (by omega)

/-- One word is written, then the words behind it. -/
theorem cons (h : Wrote a 1 (fun _ => w) s t) (h' : Wrote (a + 1) n (fun _ => w) t u) :
    Wrote a (n + 1) (fun _ => w) s u where
  word i hi := by
    cases i with
    | zero => rw [h'.other _ (by omega), h.word 0 Nat.one_pos]
    | succ i => rw [← h'.word i (by omega), Nat.add_assoc, Nat.add_comm 1 i]
  other x hx := by rw [h'.other x (by omega), h.other x (by omega)]

/-- What is written depends on memory alone. -/
theorem congr (h : Wrote a n val s t) {s' : State} (hmemory : s'.memory = s.memory) :
    Wrote a n val s' t :=
  ⟨h.word, fun x hx => by rw [State.word_eq_of_memory hmemory, h.other x hx]⟩

/-- Where no word is written, the address does not matter. -/
theorem move (h : Wrote a n val s t) (hab : 0 < n → a = b) : Wrote b n val s t := by
  rcases Nat.eq_zero_or_pos n with rfl | hn
  · exact ⟨fun _ hi => absurd hi (Nat.not_lt_zero _), fun x _ => h.other x (by omega)⟩
  · exact hab hn ▸ h

end Wrote

section Fills

variable {image : Image} (handlers : Handlers) {a n : Nat} {s : State} {p v : Register}

/-- The code that stores a word `n` times. -/
def fillCode (p v : Register) : Nat → List Directive
  | 0 => []
  | n + 1 => ins .store [p, v] :: ((if n ≠ 0 then [ins .add [p, p, .one]] else []) ++ fillCode p v n)

/-- Storing a word several times emits the code for it. -/
theorem fillWords_ok {r r' : Routine} {u : Unit} :
    fillWords p v n r = .ok u r' ↔ r.plus (fillCode p v n) = r' := by
  induction n generalizing r with
  | zero => simp [fillWords, fillCode]
  | succ n ih =>
    by_cases hn : n = 0
    · subst hn
      simp [fillWords, fillCode, Opcode.operands]
    · simp [fillWords, fillCode, Opcode.operands, hn, ih]

/-- A word is stored several times, one after the other. -/
theorem reaches_fillCode (hw : p.Writable) (hv : v.toNat < 64) (hne : v ≠ p)
    (hp : Placed image a (fillCode p v n)) (hs : s.pc = UInt32.ofNat a) (hone : s.reg .one = 1)
    (hin : (s.reg p).toNat + n ≤ s.memory.size) (hsize : s.memory.size ≤ 4294967296) :
    ∃ t, Reaches image handlers s t ∧ t.pc = UInt32.ofNat (a + totalSize (fillCode p v n)) ∧
      Wrote (s.reg p).toNat n (fun _ => s.reg v) s t ∧ ∀ q, q ≠ p → t.reg q = s.reg q := by
  induction n generalizing a s with
  | zero => exact ⟨s, .refl s, hs, .zero rfl, fun _ _ => rfl⟩
  | succ n ih =>
    obtain ⟨hstore, hrest⟩ := hp
    have hrun₁ := Machine.reaches_store handlers hstore hs (by omega) hw.lt hv hone
    have hone₁ := hrun₁.one hone
    have hput : Wrote (s.reg p).toNat 1 (fun _ => s.reg v) s
        (s.put (s.reg p).toNat (s.reg v) (UInt32.ofNat (a + 1))) := .put (by omega)
    cases n with
    | zero => exact ⟨_, hrun₁, rfl, hput, fun _ _ => rfl⟩
    | succ n =>
      rw [if_pos n.succ_ne_zero] at hrest
      obtain ⟨hadd, hrest⟩ := Machine.placed_append.1 hrest
      have hrun₂ := Machine.reaches_binary handlers hadd.1 rfl rfl hw hw.lt (by decide) hone₁
      have hone₂ := hrun₂.one hone₁
      rw [hone₁, State.put_reg] at hrun₂ hone₂
      have hnext : (s.reg p + 1).toNat = (s.reg p).toNat + 1 := Machine.toNat_add_one (by omega)
      obtain ⟨t, hrun₃, hpc, ht, htreg⟩ := ih hrest rfl hone₂
        (by
          rw [State.reg_assign_self _ _ _ _ hw.lt, hnext, State.assign_memory, State.put_memory_size]
          omega)
        (by rw [State.assign_memory, State.put_memory_size]; exact hsize)
      rw [State.reg_assign_self _ _ _ _ hw.lt, State.reg_assign_of_ne _ _ _ _ _ hne, State.put_reg,
        hnext] at ht
      refine ⟨t, hrun₁.trans (hrun₂.trans hrun₃), ?_, hput.cons (ht.congr rfl), fun q hq => ?_⟩
      · rw [hpc, fillCode.eq_def p v (n + 1 + 1)]
        simp only [if_pos n.succ_ne_zero, Machine.totalSize_cons, Machine.totalSize_append,
          Machine.size_instruction, Machine.totalSize_nil]
        congr 1
        omega
      · rw [htreg q hq, State.reg_assign_of_ne _ _ _ _ _ hq, State.put_reg]

end Fills

/-- A step that, given an address in a register, writes `n` words there, which depend on the word in
`v` and on memory, wherever `fits` holds of the address, that word and the size of memory. -/
def Puts (image : Image) (handlers : Handlers) (v : Register) (n : Nat)
    (fits : Nat → Word → Nat → Prop) (val : Word → (Nat → Word) → Nat → Word)
    (write : Register → Gen Unit) : Prop :=
  ∀ (r r' : Routine) (u : Unit) (addr : Register), r.pool.Valid → symbol r.name = r.name →
    addr ∈ r.pool.live → v ∈ r.pool.live → write addr r = .ok u r' →
    r.pool.Kept r'.pool ∧ ∃ code, r' = ((r.plus code).withPool r'.pool).withLabels r'.labels ∧
      Runs image handlers code
        (fun s => (s.reg addr).toNat + n ≤ s.memory.size ∧ s.memory.size ≤ 4294967296 ∧
          fits (s.reg addr).toNat (s.reg v) s.memory.size)
        fun s t => Wrote (s.reg addr).toNat n (val (s.reg v) s.word) s t ∧
          ∀ q, Untouched r.pool r'.pool q → t.reg q = s.reg q

/-- The words of a value: the word that stands for it, or those at the address that does. -/
def wordsOf (shapes : Shapes) (t : Ty) (w : Word) (memory : Nat → Word) (i : Nat) : Word :=
  match shapes.isIntegral t with
  | .ok true => w
  | _ => memory (w.toNat + i)

section Putting

variable (image : Image) (handlers : Handlers) {shapes : Shapes} {t : Ty} {n : Nat} (v : Register)

/-- A value is stored: one word, or a copy of those at an address. -/
theorem puts_storeValue (hsize : ∀ {k}, shapes.size t = .ok k → k = n)
    (hword : shapes.isIntegral t = .ok true → n = 1) :
    Puts image handlers v n
      (fun a w size => shapes.isIntegral t ≠ .ok true → Apart a w.toNat n size)
      (wordsOf shapes t) fun addr => storeValue shapes addr v t := by
  intro r r' u addr hvalid hname haddr hv h
  simp only [storeValue, bind_ok, orFault_ok] at h
  obtain ⟨integral, _, ⟨hintegral, rfl⟩, h⟩ := h
  cases integral with
  | true =>
    simp only [↓reduceIte, emit_ok] at h
    obtain ⟨-, rfl⟩ := h
    obtain rfl := hword hintegral
    refine ⟨.refl _, [ins .store [addr, v]], rfl, ?_⟩
    rintro a s ⟨hstore, -⟩ hs hone ⟨hin, -, -⟩
    have hrun := Machine.reaches_store handlers hstore hs (by omega) (hvalid.withholds haddr).lt
      (hvalid.withholds hv).lt hone
    have hwords : wordsOf shapes t (s.reg v) s.word = fun _ => s.reg v := by
      funext i
      rw [wordsOf, hintegral]
    exact ⟨_, hrun, rfl, hwords ▸ .put (by omega), fun _ _ => rfl⟩
  | false =>
    simp only [Bool.false_eq_true, ↓reduceIte, bind_ok, orFault_ok] at h
    obtain ⟨k, _, ⟨hk, rfl⟩, h⟩ := h
    obtain rfl := hsize hk
    obtain ⟨hkept, code, hr, hruns⟩ := copy_runs image handlers hvalid hname haddr hv h
    refine ⟨hkept, code, hr, fun a s hp hs hone hpre => ?_⟩
    obtain ⟨-, hmemory, hfits⟩ := hpre
    have hapart := hfits (by simp [hintegral])
    obtain ⟨t', hrun, hpc, hcopied, hreg⟩ := hruns a s hp hs hone ⟨hapart, hmemory⟩
    have hwords : wordsOf shapes t (s.reg v) s.word = fun i => s.word ((s.reg v).toNat + i) := by
      funext i
      rw [wordsOf, hintegral]
    exact ⟨t', hrun, hpc, hwords ▸ ⟨hcopied.word, hcopied.other⟩, hreg⟩

/-- A word is stored as many times as a size says. -/
theorem puts_fill (hsize : ∀ {k}, shapes.size t = .ok k → k = n) :
    Puts image handlers v n (fun _ _ _ => True) (fun w _ _ => w)
      fun addr => orFault (shapes.size t) >>= fun k => fill addr v k := by
  intro r r' u addr hvalid hname haddr hv h
  simp only [bind_ok, orFault_ok] at h
  obtain ⟨k, _, ⟨hk, rfl⟩, h⟩ := h
  obtain rfl := hsize hk
  simp only [fill, allocate_front, emit_front] at h
  obtain ⟨x, p, hx, -, h⟩ := h
  simp only [bind_ok, fillWords_ok, release_ok] at h
  obtain ⟨_, _, rfl, p', hp', rfl⟩ := h
  have htakes := Pool.Takes.of_allocate hx
  have hw := htakes.writable
  have hne : v ≠ x := (hvalid.withholds hv).ne hx
  have hever : x ∈ p'.ever := Pool.release_ever hp' ▸ htakes.taken
  refine ⟨.around hx (.refl p) hp', ins .mov [x, addr] :: fillCode x v n, ?_, ?_⟩
  · rw [Routine.plus_plus]
    rfl
  rintro a s ⟨hmov, hfill⟩ hs hone ⟨hin, hmemory, -⟩
  have hrun₁ := Machine.reaches_mov handlers hmov hs hw (hvalid.withholds haddr).lt hone
  obtain ⟨t', hrun₂, hpc, hwrote, hreg⟩ := reaches_fillCode handlers hw (hvalid.withholds hv).lt hne
    hfill rfl (hrun₁.one hone) (by rw [State.reg_assign_self _ _ _ _ hw.lt]; exact hin) hmemory
  rw [State.reg_assign_self _ _ _ _ hw.lt, State.reg_assign_of_ne _ _ _ _ _ hne] at hwrote
  refine ⟨t', hrun₁.trans hrun₂, ?_, hwrote.congr rfl, fun q hq => ?_⟩
  · rw [hpc, Machine.totalSize_cons, Nat.add_assoc]
  · have hqx := hq.ne htakes.new hever
    rw [hreg q hqx, State.reg_assign_of_ne _ _ _ _ _ hqx]

end Putting

section Slots

variable {image : Image} {handlers : Handlers} {r₀ r r₁ r₂ r₃ r' : Routine} {s₀ : State}
  {low high n offset : Nat} {slot : Slot} {d : Word} {addr v : Register} {u₁ u₂ u₃ : Unit}
  {fits : Nat → Word → Nat → Prop} {val : Word → (Nat → Word) → Nat → Word}
  {write : Register → Gen Unit}

/-- Taking a register, working with it, and giving it back. -/
theorem Pool.Takes.returned {p p₁ p₂ p' : Pool} {q : Register} (h : p.Takes p₁ q)
    (hkept : p₁.Kept p₂) (hrelease : p₂.release q = .ok p') : p.Kept p' := by
  obtain ⟨-, rfl⟩ := Pool.release_eq_ok hrelease
  refine ⟨?_, fun x hx => hkept.ever x (h.ever x hx), fun hp => ?_⟩
  · rw [hkept.live, h.live, List.erase_cons_head]
  · exact (hkept.valid (h.valid hp)).release hrelease

/-- Words are written at an offset of a temporary. -/
theorem putSlot_runs (hputs : Puts image handlers v n fits val write) (hvalid : r.pool.Valid)
    (hname : symbol r.name = r.name) (hv : v ∈ r.pool.live) (hs₀ : Framed r₀ s₀)
    (hout : frameSlot r₀ s₀ < low ∨ high ≤ frameSlot r₀ s₀) (hd : slotWord image r₀ slot s₀ = d)
    (hin : d.toNat + offset + n ≤ s₀.memory.size) (haddr : slotAddress slot r = .ok addr r₁)
    (hoffset : Codegen.offset addr offset r₁ = .ok u₁ r₂) (hwrite : write addr r₂ = .ok u₂ r₃)
    (hrelease : release addr r₃ = .ok u₃ r') :
    r.pool.Kept r'.pool ∧ ∃ code, r' = ((r.plus code).withPool r'.pool).withLabels r'.labels ∧
      Runs image handlers code
        (fun s => Amid image handlers r₀ s₀ low high r s ∧
          ∀ a, (0 < n → a = d.toNat + offset) → a + n ≤ s.memory.size →
            fits a (s.reg v) s.memory.size)
        fun s t => Wrote (d.toNat + offset) n (val (s.reg v) s.word) s t ∧
          ∀ q, Untouched r.pool r'.pool q → t.reg q = s.reg q := by
  obtain ⟨htakes, code₁, hr₁, hruns₁⟩ := slotAddress_amid image handlers hs₀ hout haddr
  obtain ⟨-, hsmall, hkept₂, -⟩ := adjust_ok hoffset
  obtain ⟨code₂, hr₂, hruns₂⟩ := adjust_runs image handlers (g := fun a b => a + b)
    (fun _ _ _ => rfl) (fun _ => UInt32.add_zero _) htakes.writable (.inl htakes.mem_live) hoffset
  have haddr₂ : addr ∈ r₂.pool.live := hkept₂.live ▸ htakes.mem_live
  have hv₂ : v ∈ r₂.pool.live := hkept₂.live ▸ htakes.live_subset v hv
  obtain ⟨hkept₃, code₃, hr₃, hruns₃⟩ := hputs _ _ _ _ (hkept₂.valid (htakes.valid hvalid))
    (by rw [hr₂, hr₁]; exact hname) haddr₂ hv₂ hwrite
  obtain ⟨p', hp', rfl⟩ := release_ok.1 hrelease
  have hkept := hkept₂.trans hkept₃
  refine ⟨htakes.returned hkept hp', code₁ ++ (code₂ ++ code₃), ?_, ?_⟩
  · rw [hr₃, hr₂, hr₁]
    simp
  intro a s hp hs hone ⟨hamid, hfits⟩
  simp only [Machine.placed_append, Machine.totalSize_append, ← Nat.add_assoc] at hp ⊢
  obtain ⟨hp₁, hp₂, hp₃⟩ := hp
  obtain ⟨m₁, hrun₁, hpc₁, haddr₁, hreg₁, hmemory₁, -⟩ := hruns₁ a s hp₁ hs hone hamid
  have hone₁ := hrun₁.one hone
  obtain ⟨m₂, hrun₂, hpc₂, hmoved, hreg₂, hmemory₂, -⟩ := hruns₂ _ m₁ hp₂ hpc₁ hone₁ trivial
  have hmemory : m₂.memory = s.memory := hmemory₂.trans hmemory₁
  have hsize : s.memory.size = s₀.memory.size := hamid.reaches.size
  have hlimit := hs₀.2
  have haddress : (m₂.reg addr).toNat = (d.toNat + offset) % 4294967296 := by
    rw [hmoved, haddr₁, hd, UInt32.toNat_add, Int.toNat_natCast,
      UInt32.toNat_ofNat_of_lt' (by rw [UInt32.size]; omega)]
  have hfar : 0 < n → (m₂.reg addr).toNat = d.toNat + offset := fun hn => by
    rw [haddress]
    exact Nat.mod_eq_of_lt (by omega)
  have hfit : (m₂.reg addr).toNat + n ≤ s.memory.size := by
    rcases Nat.eq_zero_or_pos n with rfl | hn
    · rw [haddress]
      have := Nat.mod_le (d.toNat + offset) 4294967296
      omega
    · rw [hfar hn]
      omega
  -- Neither the value nor the registers in use are touched on the way to the address.
  have hkeep {q : Register} (hq : Untouched r.pool p' q) : m₂.reg q = s.reg q := by
    have hever (x : Register) (hx : x ∈ r₃.pool.ever) : x ∈ p'.ever := by
      rw [Pool.release_ever hp']
      exact hx
    have hqaddr : q ≠ addr := hq.ne htakes.new (hever _ (hkept.ever _ htakes.taken))
    have hq₂ : Untouched r₁.pool r₂.pool q :=
      (hq.first fun x hx => hever x (hkept₃.ever x hx)).second htakes.live_subset
    rw [hreg₂ q hq₂ hqaddr, hreg₁ q (hq.first fun x hx => hever x (hkept.ever x hx))]
  obtain ⟨t, hrun₃, hpc₃, hwrote, hreg₃⟩ := hruns₃ _ m₂ hp₃ hpc₂ (hrun₂.one hone₁) (by
    simp only [hmemory, hkeep (.inl hv), hsize]
    rw [hsize] at hfits hfit
    exact ⟨hfit, hlimit, hfits _ hfar hfit⟩)
  rw [hkeep (.inl hv), State.word_eq_of_memory hmemory] at hwrote
  refine ⟨t, hrun₁.trans (hrun₂.trans hrun₃), hpc₃,
    (hwrote.congr hmemory.symm).move hfar, fun q hq => ?_⟩
  have hever (x : Register) (hx : x ∈ r₃.pool.ever) : x ∈ p'.ever := by
    rw [Pool.release_ever hp']
    exact hx
  rw [hreg₃ q ((hq.first hever).second ?_), hkeep hq]
  exact fun x hx => hkept₂.live ▸ htakes.live_subset x hx

end Slots

/-! ## Members that are filled -/

/-- From one state to another the members with some names got their words, in a block at `d`, and the
words of the other members stayed, as did all words below `low` and from `high` on. -/
structure Fills (ms : List (Member Ty)) (ks : List Nat) (contents : String → Nat → Word)
    (d low high : Nat) (names : List String) (s t : State) : Prop where
  filled : ∀ {m offset size}, Part ms ks m offset size → m.name ∈ names →
    ∀ i < size, t.word (d + offset + i) = contents m.name i
  kept : ∀ {m offset size}, Part ms ks m offset size → m.name ∉ names →
    ∀ i < size, t.word (d + offset + i) = s.word (d + offset + i)
  other : ∀ x, x < low ∨ high ≤ x → t.word x = s.word x

namespace Fills

variable {ms : List (Member Ty)} {ks : List Nat} {contents : String → Nat → Word} {d low high : Nat}
  {names names' : List String} {s t u : State}

/-- Words that stay fill no member. -/
theorem stay (hinside : ∀ x, d ≤ x → x < d + ks.sum → t.word x = s.word x)
    (hother : ∀ x, x < low ∨ high ≤ x → t.word x = s.word x) :
    Fills ms ks contents d low high [] s t where
  filled _ h := absurd h List.not_mem_nil
  kept hpart _ i hi := by
    have := hpart.le
    exact hinside _ (by omega) (by omega)
  other := hother

/-- Some members are filled, then others or the same ones again. -/
theorem trans (h : Fills ms ks contents d low high names s t)
    (h' : Fills ms ks contents d low high names' t u) :
    Fills ms ks contents d low high (names ++ names') s u where
  filled {m _ _} hpart hmem i hi := by
    by_cases hlast : m.name ∈ names'
    · exact h'.filled hpart hlast i hi
    · rw [h'.kept hpart hlast i hi]
      exact h.filled hpart ((List.mem_append.1 hmem).resolve_right hlast) i hi
  kept hpart hnot i hi := by
    rw [List.mem_append, not_or] at hnot
    rw [h'.kept hpart hnot.2 i hi, h.kept hpart hnot.1 i hi]
  other x hx := (h'.other x hx).trans (h.other x hx)

/-- The words of a part are written. -/
theorem wrote {m : Member Ty} {offset size : Nat} {val : Nat → Word}
    (hnames : (ms.map (·.name)).Nodup) (hlow : low ≤ d) (hhigh : d + ks.sum ≤ high)
    (hpart : Part ms ks m offset size) (h : Wrote (d + offset) size val s t)
    (hval : ∀ i < size, val i = contents m.name i) :
    Fills ms ks contents d low high [m.name] s t where
  filled hpart' hmem i hi := by
    obtain ⟨rfl, rfl, rfl⟩ := hpart.unique hnames hpart' (List.mem_singleton.1 hmem).symm
    rw [h.word i hi, hval i hi]
  kept hpart' hnot i hi := by
    have := hpart.apart hpart' fun heq => hnot (List.mem_singleton.2 heq.symm)
    exact h.other _ (by omega)
  other x hx := by
    have := hpart.le
    exact h.other x (by omega)

end Fills

/-- The words of the members of a struct value: those of the given ones, and zeros. -/
def memberWords (given : List String) (contents : String → Nat → Word) (name : String) (i : Nat) :
    Word :=
  if name ∈ given then contents name i else 0

/-- What the value of a field comes to: it has the words of a member, and neither its own words nor
what its code wrote are in the block of `n` words at `d`. -/
structure Offers (shapes : Shapes) (t : Ty) (size : Nat) (words : Nat → Word) (d n low high : Nat)
    (s s' : State) (v : Word) : Prop where
  inside : ∀ x, d ≤ x → x < d + n → s'.word x = s.word x
  other : ∀ x, x < low ∨ high ≤ x → s'.word x = s.word x
  words : ∀ i < size, wordsOf shapes t v s'.word i = words i
  block : shapes.isIntegral t ≠ .ok true →
    v.toNat + size ≤ s'.memory.size ∧ (v.toNat + size ≤ d ∨ d + n ≤ v.toNat)

/-- What code leaves of a routine that gives back all registers it takes. -/
structure Leaves (r r' : Routine) (code : List Directive) : Prop extends Extends r r' code where
  live : r'.pool.live.Perm r.pool.live
  valid : r'.pool.Valid

namespace Leaves

variable {r r₁ r' : Routine} {q : Register} {code more : List Directive}

/-- No code. -/
theorem refl (hvalid : r.pool.Valid) : Leaves r r [] :=
  ⟨⟨by simp, rfl, rfl, rfl⟩, .refl _, hvalid⟩

/-- Code may follow. -/
theorem trans (h : Leaves r r₁ code) (h' : Leaves r₁ r' more) : Leaves r r' (code ++ more) :=
  ⟨h.toExtends.trans h'.toExtends, h'.live.trans h.live, h'.valid⟩

/-- The register of a value is given back. -/
theorem of_yields {p : Pool} (h : Yields r r₁ q code) (hrelease : r₁.pool.release q = .ok p) :
    Leaves r (r₁.withPool p) code where
  code := h.code
  name := h.name
  depth := h.depth
  homes := h.homes
  live := by
    rw [Routine.withPool_pool, (Pool.release_eq_ok hrelease).2]
    simpa using h.live.erase q
  valid := h.valid.release hrelease

end Leaves

section Fields

variable {image : Image} {handlers : Handlers} {shapes : Shapes} {r₀ r r' : Routine} {s₀ : State}
  {low high : Nat} {slot : Slot} {d : Word} {u : Unit} {ms : List (Member Ty)} {ks : List Nat}
  {contents : String → Nat → Word}

variable (hlays : shapes.LaysOut ms ks) (hs₀ : Framed r₀ s₀) (hlow : low ≤ d.toNat)
  (hhigh : d.toNat + ks.sum ≤ high) (hout : frameSlot r₀ s₀ < low ∨ high ≤ frameSlot r₀ s₀)
  (hin : d.toNat + ks.sum ≤ s₀.memory.size)

include hlays hs₀ hlow hhigh hout hin

/-- The fields of a struct value are stored: by induction on the fields, each in the part of its
member. -/
theorem compileFields_runs {fields : List (String × Expr)} (hd : slotWord image r₀ slot s₀ = d)
    (hfields : ∀ f ∈ fields, ∃ m offset size, Part ms ks m offset size ∧ m.name = f.1 ∧
      Operand image handlers r₀ s₀ low high (compileExpr shapes f.2 false)
        (Offers shapes m.type size (contents f.1) d.toNat ks.sum low high))
    (hvalid : r.pool.Valid) (halong : Along r₀ r) (hname : symbol r.name = r.name)
    (h : compileFields shapes slot ms fields r = .ok u r') :
    ∃ code, Leaves r r' code ∧ Runs image handlers code (Amid image handlers r₀ s₀ low high r)
      fun s t => Steady r s t ∧ Fills ms ks contents d.toNat low high (fields.map (·.1)) s t := by
  induction fields generalizing r with
  | nil =>
    simp only [compileFields, pure_ok] at h
    obtain ⟨-, rfl⟩ := h
    exact ⟨[], .refl hvalid, fun a s _ hs _ _ =>
      ⟨s, .refl s, hs, ⟨rfl, fun _ _ => rfl, rfl⟩, .stay (fun _ _ _ => rfl) fun _ _ => rfl⟩⟩
  | cons f fields ih =>
    obtain ⟨name, e⟩ := f
    obtain ⟨hfield, hrest⟩ := List.forall_mem_cons.1 hfields
    obtain ⟨m, offset, size, hpart, rfl, hoperand⟩ := hfield
    simp only [compileFields] at h
    rw [bind_ok] at h
    obtain ⟨found, _, hmember, h⟩ := h
    obtain ⟨hfound, rfl⟩ := orFault_ok.1 hmember
    obtain rfl := hlays.member hpart hfound
    simp only [filledIn, pure_bind] at h
    rw [bind_ok] at h
    obtain ⟨v, r₁, hv, h⟩ := h
    rw [bind_ok] at h
    obtain ⟨addr, r₂, haddr, h⟩ := h
    rw [bind_ok] at h
    obtain ⟨_, r₃, hoffset, h⟩ := h
    rw [bind_ok] at h
    obtain ⟨_, r₄, hstore, h⟩ := h
    rw [bind_ok] at h
    obtain ⟨_, r₅, hreturned, h⟩ := h
    rw [release_front] at h
    obtain ⟨p, hp, h⟩ := h
    obtain ⟨codeV, hyields, hrunV⟩ := hoperand r v r₁ hvalid halong hv
    have hle := hpart.le
    have hfits : d.toNat + offset + size ≤ s₀.memory.size := by omega
    obtain ⟨hkept, codeS, hr₅, hrunS⟩ := putSlot_runs (puts_storeValue image handlers v
      (hlays.size hpart) (hlays.word hpart)) hyields.valid (by rw [hyields.name, hname])
      hyields.mem_live hs₀ hout hd hfits haddr hoffset hstore hreturned
    have hleaves : Leaves r (r₅.withPool p) (codeV ++ codeS) :=
      .of_yields (hyields.kept hkept (.of_eq hr₅)) hp
    obtain ⟨codeR, hleavesR, hrunR⟩ := ih hrest hleaves.valid
      (halong.more hleaves.toExtends) (by rw [hleaves.name, hname]) h
    refine ⟨(codeV ++ codeS) ++ codeR, hleaves.trans hleavesR, fun a s hpl hs hone hamid => ?_⟩
    simp only [Machine.placed_append, Machine.totalSize_append, ← Nat.add_assoc] at hpl ⊢
    obtain ⟨⟨hpV, hpS⟩, hpR⟩ := hpl
    obtain ⟨m₁, hrun₁, hpc₁, hsteady₁, hoffers⟩ := hrunV a s hpV hs hone hamid
    have hone₁ := hrun₁.one hone
    have hamid₁ := hamid.step hyields.toExtends hrun₁ hsteady₁.stack hoffers.other
    obtain ⟨m₂, hrun₂, hpc₂, hwrote, hreg₂⟩ := hrunS _ m₁ hpS hpc₁ hone₁
      ⟨hamid₁, fun b hb hfit hword => by
        obtain ⟨hblock, hapart⟩ := hoffers.block hword
        exact ⟨by omega, hfit, hblock⟩⟩
    have hrun := hrun₁.trans hrun₂
    have hvalid₅ := hkept.valid hyields.valid
    have hfill : Fills ms ks contents d.toNat low high [m.name] s m₂ :=
      (Fills.stay hoffers.inside hoffers.other).trans
        (.wrote hlays.names hlow hhigh hpart hwrote hoffers.words)
    have hsteady : Steady r s m₂ := by
      refine ⟨?_, fun q hq => ?_, ?_⟩
      · rw [State.stack, hreg₂ _ (.sp hvalid₅), ← State.stack, hsteady₁.stack]
      · rw [hreg₂ q (.inl (hyields.live_subset q hq)), hsteady₁.reg q hq]
      · exact hfill.other _ (hamid.frameSlot ▸ hout)
    obtain ⟨t, hrun₃, hpc₃, hsteadyR, hfillR⟩ := hrunR _ m₂ hpR (by simpa only
      [Machine.totalSize_append, ← Nat.add_assoc] using hpc₂) (hrun₂.one hone₁)
      (hamid.step hleaves.toExtends hrun hsteady.stack hfill.other)
    refine ⟨t, hrun.trans hrun₃, hpc₃, hsteady.trans hleaves.depth ?_ hsteadyR, hfill.trans hfillR⟩
    exact fun q hq => hleaves.live.symm.subset hq

/-- The members left out are filled with zeros: by induction on the members. -/
theorem zeroMembers_runs {zero : Register} {given : List String} {rest : List (Member Ty)}
    (hd : slotWord image r₀ slot s₀ = d)
    (hrest : ∀ m ∈ rest, ∃ offset size, Part ms ks m offset size)
    (hzero : ∀ m ∈ rest, m.name ∉ given → ∀ i, contents m.name i = 0)
    (hvalid : r.pool.Valid) (hname : symbol r.name = r.name) (hlive : zero ∈ r.pool.live)
    (h : zeroMembers shapes slot ms zero given rest r = .ok u r') :
    r.pool.Kept r'.pool ∧ ∃ code, r' = ((r.plus code).withPool r'.pool).withLabels r'.labels ∧
      Runs image handlers code
        (fun s => Amid image handlers r₀ s₀ low high r s ∧ s.reg zero = 0)
        fun s t => Fills ms ks contents d.toNat low high
          ((rest.map (·.name)).filter fun name => !given.contains name) s t ∧
            ∀ q, Untouched r.pool r'.pool q → t.reg q = s.reg q := by
  induction rest generalizing r with
  | nil =>
    simp only [zeroMembers, pure_ok] at h
    obtain ⟨-, rfl⟩ := h
    exact ⟨.refl _, [], by simp, fun a s _ hs _ _ => ⟨s, .refl s, hs,
      .stay (fun _ _ _ => rfl) fun _ _ => rfl, fun _ _ => rfl⟩⟩
  | cons m rest ih =>
    obtain ⟨⟨offset, size, hpart⟩, hrest⟩ := List.forall_mem_cons.1 hrest
    obtain ⟨hzeroed, hzero⟩ := List.forall_mem_cons.1 hzero
    by_cases hgiven : given.contains m.name = true
    · simp only [zeroMembers, hgiven, Bool.not_true, Bool.false_eq_true, ↓reduceIte] at h
      rw [List.map_cons, List.filter_cons_of_neg (by simpa using hgiven)]
      exact ih hrest hzero hvalid hname hlive h
    · simp only [zeroMembers, hgiven, Bool.not_false, ↓reduceIte] at h
      rw [bind_ok] at h
      obtain ⟨found, _, hmember, h⟩ := h
      obtain ⟨hfound, rfl⟩ := orFault_ok.1 hmember
      obtain rfl := hlays.member hpart hfound
      simp only [filledIn, pure_bind] at h
      rw [bind_ok] at h
      obtain ⟨addr, r₁, haddr, h⟩ := h
      rw [bind_ok] at h
      obtain ⟨_, r₂, hoffset, h⟩ := h
      rw [bind_ok] at h
      obtain ⟨k, r₃, hk, h⟩ := h
      rw [bind_ok] at h
      obtain ⟨_, r₄, hfill, h⟩ := h
      rw [bind_ok] at h
      obtain ⟨_, r₅, hreturned, h⟩ := h
      have hle := hpart.le
      have hfits : d.toNat + offset + size ≤ s₀.memory.size := by omega
      obtain ⟨hkept, codeF, hr₅, hrunF⟩ := putSlot_runs (puts_fill image handlers zero
        (hlays.size hpart)) hvalid hname hlive hs₀ hout hd hfits haddr hoffset
        (bind_ok.2 ⟨k, r₃, hk, hfill⟩) hreturned
      obtain ⟨hkeptR, codeR, hr', hrunR⟩ := ih hrest hzero (hkept.valid hvalid)
        (by rw [hr₅]; exact hname) (hkept.live ▸ hlive) h
      refine ⟨hkept.trans hkeptR, codeF ++ codeR, ?_, fun a s hp hs hone hpre => ?_⟩
      · rw [hr', hr₅]
        simp
      obtain ⟨hamid, hzeroReg⟩ := hpre
      obtain ⟨hpF, hpR⟩ := Machine.placed_append.1 hp
      obtain ⟨m₁, hrun₁, hpc₁, hwrote, hreg₁⟩ := hrunF a s hpF hs hone
        ⟨hamid, fun _ _ _ => trivial⟩
      rw [hzeroReg] at hwrote
      have hfilled : Fills ms ks contents d.toNat low high [m.name] s m₁ :=
        .wrote hlays.names hlow hhigh hpart hwrote fun i _ =>
          (hzeroed (by simpa using hgiven) i).symm
      obtain ⟨t, hrun₂, hpc₂, hfilledR, hreg₂⟩ := hrunR _ m₁ hpR hpc₁ (hrun₁.one hone)
        ⟨hamid.step (.of_eq hr₅) hrun₁ (by
          rw [State.stack, hreg₁ _ (.sp (hkept.valid hvalid)), State.stack]) hfilled.other,
          (hreg₁ zero (.inl hlive)).trans hzeroReg⟩
      refine ⟨t, hrun₁.trans hrun₂, ?_, ?_, fun q hq => ?_⟩
      · rw [hpc₂, Machine.totalSize_append, Nat.add_assoc]
      · rw [List.map_cons, List.filter_cons_of_pos (by simpa using hgiven)]
        exact hfilled.trans hfilledR
      · rw [hreg₂ q (hq.second fun x hx => hkept.live ▸ hx), hreg₁ q (hq.first hkeptR.ever)]

omit hlays hs₀ hlow hhigh hout hin in
/-- Names that are all different stay as they are. -/
theorem eraseDups_of_nodup {names : List String} (h : names.Nodup) : names.eraseDups = names := by
  induction names with
  | nil => rfl
  | cons name names ih =>
    obtain ⟨hnot, hnodup⟩ := List.nodup_cons.1 h
    rw [List.eraseDups_cons, List.filter_eq_self.2 ?_, ih hnodup]
    intro other hother
    simpa using fun heq : other = name => hnot (heq ▸ hother)

/-- The members that no field names are filled with zeros, if there are any. -/
theorem zeroRest_runs {α : Type} {g : Gen α} {b : α} {given : List String}
    (hd : slotWord image r₀ slot s₀ = d) (hgiven : given.Nodup)
    (hsub : ∀ name ∈ given, name ∈ ms.map (·.name))
    (hzero : ∀ m ∈ ms, m.name ∉ given → ∀ i, contents m.name i = 0)
    (hvalid : r.pool.Valid) (hname : symbol r.name = r.name)
    (h : (if given.eraseDups.length < ms.length then do
        let zero ← allocate
        loadWord zero 0
        zeroMembers shapes slot ms zero given ms
        release zero
        g
      else g) r = .ok b r') :
    ∃ r₁, g r₁ = .ok b r' ∧ r.pool.Kept r₁.pool ∧
      ∃ code, r₁ = ((r.plus code).withPool r₁.pool).withLabels r₁.labels ∧
        Runs image handlers code (Amid image handlers r₀ s₀ low high r)
          fun s t => Fills ms ks contents d.toNat low high
            ((ms.map (·.name)).filter fun name => !given.contains name) s t ∧
              ∀ q, Untouched r.pool r₁.pool q → t.reg q = s.reg q := by
  rw [eraseDups_of_nodup hgiven] at h
  by_cases hfew : given.length < ms.length
  · simp only [hfew, ↓reduceIte, allocate_front, loadWord_front] at h
    obtain ⟨zero, p, hp, h⟩ := h
    rw [bind_ok] at h
    obtain ⟨_, r₂, hzeroes, h⟩ := h
    rw [release_front] at h
    obtain ⟨p', hp', h⟩ := h
    have htakes := Pool.Takes.of_allocate hp
    have hw := htakes.writable
    obtain ⟨hkept, code, hr₂, hruns⟩ := zeroMembers_runs hlays hs₀ hlow hhigh hout hin
      (r := (r.withPool p).plus _) hd
      (fun m hm => Types.Part.exists_of_mem hlays.length hm) hzero (hvalid.allocate hp) hname
      htakes.mem_live hzeroes
    refine ⟨_, h, .around hp hkept hp', .constant zero (.immediate 0) :: code, ?_, ?_⟩
    · rw [hr₂]
      simp
    rintro a s ⟨hconstant, hcode⟩ hs hone hamid
    have hrun₁ := Machine.reaches_constant handlers hconstant rfl hs hw hone
    obtain ⟨t, hrun₂, hpc, hfills, hreg⟩ := hruns _ _ hcode rfl (hrun₁.one hone)
      ⟨hamid.step (.of_pool (r := r) rfl) hrun₁
        (State.stack_assign_of_ne _ _ _ _ (Pool.ne_sp_of_mem htakes.mem)) fun _ _ => rfl,
        State.reg_assign_self _ _ _ _ hw.lt⟩
    refine ⟨t, hrun₁.trans hrun₂, ?_, ⟨hfills.filled, hfills.kept, hfills.other⟩, fun q hq => ?_⟩
    · rw [hpc, Machine.totalSize_cons, Machine.size_constant, Nat.add_assoc]
    · have hever (x : Register) (hx : x ∈ r₂.pool.ever) : x ∈ p'.ever := by
        rw [Pool.release_ever hp']
        exact hx
      have hqz : q ≠ zero := hq.ne htakes.new (hever _ (hkept.ever _ htakes.taken))
      rw [hreg q ((hq.first hever).second htakes.live_subset), State.reg_assign_of_ne _ _ _ _ _ hqz]
  · simp only [hfew, ↓reduceIte] at h
    have hall : ((ms.map (·.name)).filter fun name => !given.contains name) = [] := by
      refine List.filter_eq_nil_iff.2 fun name hmem => ?_
      have hperm : given.Perm (ms.map (·.name)) :=
        (hgiven.subperm hsub).perm_of_length_le (by simpa using hfew)
      simpa using hperm.symm.subset hmem
    refine ⟨r, h, .refl _, [], by simp, fun a s _ hs _ _ => ⟨s, .refl s, hs, ?_, fun _ _ => rfl⟩⟩
    rw [hall]
    exact .stay (fun _ _ _ => rfl) fun _ _ => rfl

/-- A struct value is built in its temporary: each given member gets its words, every other member
zeros, and its address is left. -/
theorem operandAt_struct {fields : List (String × Expr)} {lvalue : Bool}
    (hslot : ∀ slot r₁, temporary ks.sum r = .ok slot r₁ → slotWord image r₀ slot s₀ = d)
    (hgiven : (fields.map (·.1)).Nodup)
    (hfields : ∀ f ∈ fields, ∃ m offset size, Part ms ks m offset size ∧ m.name = f.1 ∧
      Operand image handlers r₀ s₀ low high (compileExpr shapes f.2 false)
        (Offers shapes m.type size (contents f.1) d.toNat ks.sum low high))
    (hname : symbol r.name = r.name) :
    OperandAt image handlers r₀ s₀ low high r (compileExpr shapes (.struct (some ms) fields) lvalue)
      fun s t v => v = d ∧ (∀ {m offset size}, Part ms ks m offset size → ∀ i < size,
        t.word (d.toNat + offset + i) = memberWords (fields.map (·.1)) contents m.name i) ∧
        ∀ x, x < low ∨ high ≤ x → t.word x = s.word x := by
  intro q r' hvalid halong h
  simp only [compileExpr, filledIn, pure_bind] at h
  rw [bind_ok] at h
  obtain ⟨k, _, hk, h⟩ := h
  obtain ⟨hsize, rfl⟩ := orFault_ok.1 hk
  obtain rfl := hlays.struct hsize
  rw [bind_ok] at h
  obtain ⟨slot, r₁, htemporary, h⟩ := h
  rw [bind_ok] at h
  obtain ⟨_, r₂, hcompile, h⟩ := h
  have hd := hslot slot r₁ htemporary
  obtain ⟨hext₁, hpool₁⟩ := Extends.temporary htemporary
  have hoffered : ∀ f ∈ fields, ∃ m offset size, Part ms ks m offset size ∧ m.name = f.1 ∧
      Operand image handlers r₀ s₀ low high (compileExpr shapes f.2 false) (Offers shapes m.type size
        (memberWords (fields.map (·.1)) contents f.1) d.toNat ks.sum low high) := fun f hf => by
    obtain ⟨m, offset, size, hpart, hm, hoperand⟩ := hfields f hf
    have hwords : memberWords (fields.map (·.1)) contents f.1 = contents f.1 :=
      funext fun i => if_pos (List.mem_map_of_mem hf)
    exact ⟨m, offset, size, hpart, hm, hwords ▸ hoperand⟩
  have hnamed : ∀ name ∈ fields.map (·.1), name ∈ ms.map (·.name) := fun name hmem => by
    obtain ⟨f, hf, rfl⟩ := List.mem_map.1 hmem
    obtain ⟨m, offset, size, hpart, hm, -⟩ := hfields f hf
    exact List.mem_map.2 ⟨m, hpart.mem, hm⟩
  have hzero : ∀ m ∈ ms, m.name ∉ fields.map (·.1) →
      ∀ i, memberWords (fields.map (·.1)) contents m.name i = 0 := fun m _ hnot i => if_neg hnot
  obtain ⟨codeF, hleaves, hrunF⟩ := compileFields_runs hlays hs₀ hlow hhigh hout hin hd hoffered
    (hpool₁ ▸ hvalid) (halong.more hext₁) (by rw [hext₁.name, hname]) hcompile
  obtain ⟨r₃, hslotted, hkept, codeZ, hr₃, hrunZ⟩ := zeroRest_runs hlays hs₀ hlow hhigh hout hin hd
    hgiven hnamed hzero hleaves.valid (by rw [hleaves.name, hext₁.name, hname]) h
  obtain ⟨htakes, codeQ, hr', hrunQ⟩ := slotAddress_amid image handlers hs₀ hout hslotted
  have hvalid₃ := hkept.valid hleaves.valid
  have hextF : Extends r r₂ codeF := hext₁.trans hleaves.toExtends
  have hextZ : Extends r₂ r₃ codeZ := .of_eq hr₃
  refine ⟨codeF ++ (codeZ ++ codeQ),
    { hextF.trans (hextZ.trans (.of_pool hr')) with
      live := by
        rw [htakes.live, hkept.live]
        exact (hpool₁ ▸ hleaves.live).cons q
      valid := htakes.valid hvalid₃ }, fun a s hp hs hone hamid => ?_⟩
  simp only [Machine.placed_append, Machine.totalSize_append, ← Nat.add_assoc] at hp ⊢
  obtain ⟨hpF, hpZ, hpQ⟩ := hp
  have hamid₀ : Amid image handlers r₀ s₀ low high r₁ s :=
    hamid.step hext₁ (.refl s) rfl fun _ _ => rfl
  obtain ⟨m₁, hrun₁, hpc₁, hsteady₁, hfills₁⟩ := hrunF a s hpF hs hone hamid₀
  have hone₁ := hrun₁.one hone
  have hamid₁ := hamid.step hextF hrun₁ hsteady₁.stack hfills₁.other
  obtain ⟨m₂, hrun₂, hpc₂, hfills₂, hreg₂⟩ := hrunZ _ m₁ hpZ hpc₁ hone₁ hamid₁
  have hone₂ := hrun₂.one hone₁
  have hsp₂ : m₂.reg .sp = m₁.reg .sp := hreg₂ _ (.sp hvalid₃)
  have hamid₂ := hamid₁.step hextZ hrun₂ (by rw [State.stack, hsp₂, State.stack]) hfills₂.other
  obtain ⟨t, hrun₃, hpc₃, hq, hreg₃, hmemory₃, -⟩ := hrunQ _ m₂ hpQ hpc₂ hone₂ hamid₂
  have hfills := hfills₁.trans hfills₂
  have hword := State.word_eq_of_memory hmemory₃
  refine ⟨t, hrun₁.trans (hrun₂.trans hrun₃), hpc₃, ⟨?_, fun x hx => ?_, ?_⟩, hq.trans hd, ?_, ?_⟩
  · rw [State.stack, hreg₃ _ (.sp (htakes.valid hvalid₃)), hsp₂, ← State.stack, hsteady₁.stack]
  · have hx₂ : x ∈ r₂.pool.live := hleaves.live.symm.subset (hpool₁ ▸ hx)
    rw [hreg₃ x (.inl (hkept.live ▸ hx₂)), hreg₂ x (.inl hx₂), hsteady₁.reg x (hpool₁ ▸ hx)]
  · rw [hword]
    exact hfills.other _ (hamid.frameSlot ▸ hout)
  · intro m offset size hpart i hi
    rw [hword]
    refine hfills.filled hpart (List.mem_append.2 ?_) i hi
    by_cases hmem : m.name ∈ fields.map (·.1)
    · exact .inl hmem
    · exact .inr (List.mem_filter.2 ⟨List.mem_map.2 ⟨m, hpart.mem, rfl⟩, by simpa using hmem⟩)
  · intro x hx
    rw [hword, hfills.other x hx]

end Fields

/-- A constant has the word of a member that is a word. -/
theorem operand_constant {image : Image} {handlers : Handlers} {shapes : Shapes} {r₀ : Routine}
    {s₀ : State} {low high d n size : Nat} {t : Ty} {lvalue : Bool} {words : Nat → Word} {w : Word}
    (hword : shapes.isIntegral t = .ok true) (hwords : ∀ i < size, words i = w) :
    Operand image handlers r₀ s₀ low high (compileExpr shapes (.integer w) lvalue)
      (Offers shapes t size words d n low high) := by
  refine fun r => (operand_integer w r).imp fun s s' v _ _ ⟨hmemory, hv⟩ => ?_
  have hsame := State.word_eq_of_memory hmemory
  refine ⟨fun x _ _ => by rw [hsame], fun x _ => by rw [hsame], fun i hi => ?_,
    fun hne => absurd hword hne⟩
  rw [wordsOf, hword, hwords i hi]
  exact hv

/-! ## Struct literals -/

/-- Struct literals follow the declared layout. Take a struct type whose members have different names
and sizes with a sum that can be represented. The struct has that sum as its size, a member stands at
the sum of the sizes in front of it, and each of the words belongs to exactly one member. Take fields
that name different members, each an expression that offers the words of its member without writing to
the temporary at `d`. In whatever order they are written, the code of the literal leaves `d`; the given
members have their words, all other members are zero, and nothing changed below `low` or from `high`
on, which may be the ends of the temporary. -/
theorem struct_literal {image : Image} (handlers : Handlers) {store : Store} {ms : List (Member Ty)}
    {ks : List Nat} {contents : String → Nat → Word} {fields : List (String × Expr)} {r : Routine}
    {s : State} {low high : Nat} {d : Word} (hlaid : Types.Laid store ms ks)
    (hvalid : r.pool.Valid) (hname : symbol r.name = r.name) (hframed : Framed r s)
    (hlow : low ≤ d.toNat) (hhigh : d.toNat + ks.sum ≤ high)
    (hout : frameSlot r s < low ∨ high ≤ frameSlot r s) (hin : d.toNat + ks.sum ≤ s.memory.size)
    (hslot : ∀ slot r₁, temporary ks.sum r = .ok slot r₁ → slotWord image r slot s = d)
    (hgiven : (fields.map (·.1)).Nodup)
    (hfields : ∀ f ∈ fields, ∃ m offset size, Part ms ks m offset size ∧ m.name = f.1 ∧
      Operand image handlers r s low high (compileExpr (.ofStore store) f.2 false)
        (Offers (.ofStore store) m.type size (contents f.1) d.toNat ks.sum low high)) :
    ((∀ {k s'}, Types.size (.struct ms none) store = .ok k s' → k = ks.sum) ∧
      (∀ {m offset size found s'}, Part ms ks m offset size →
        Types.findMember ms m.name store = .ok found s' → found = some (m, (offset : Int))) ∧
      ∀ x < ks.sum, ∃! part : Member Ty × Nat × Nat, Part ms ks part.1 part.2.1 part.2.2 ∧
        part.2.1 ≤ x ∧ x < part.2.1 + part.2.2) ∧
    ∀ fields' : List (String × Expr), fields'.Perm fields → ∀ lvalue q r',
      compileExpr (.ofStore store) (.struct (some ms) fields') lvalue r = .ok q r' →
      ∃ code, Yields r r' q code ∧ ∀ a, Placed image a code → s.pc = UInt32.ofNat a →
        s.reg .one = 1 → ∃ t, Reaches image handlers s t ∧ t.pc = UInt32.ofNat (a + totalSize code) ∧
          Steady r s t ∧ t.reg q = d ∧
          (∀ {m offset size}, Part ms ks m offset size → ∀ i < size,
            t.word (d.toNat + offset + i) = memberWords (fields.map (·.1)) contents m.name i) ∧
          ∀ x, x < low ∨ high ≤ x → t.word x = s.word x := by
  refine ⟨⟨Types.Laid.size_eq hlaid.struct, hlaid.findMember_eq, fun x hx => ?_⟩,
    fun fields' hperm lvalue q r' h => ?_⟩
  · obtain ⟨m, offset, size, hpart, hlow, hhigh⟩ := Part.exists_of_lt hlaid.length hx
    refine ⟨(m, offset, size), ⟨hpart, hlow, hhigh⟩, ?_⟩
    rintro ⟨m', offset', size'⟩ ⟨hpart', hlow', hhigh'⟩
    dsimp only at hpart' hlow' hhigh'
    have hsame : m.name = m'.name := by
      by_contra hne
      have := hpart.apart hpart' hne
      omega
    obtain ⟨rfl, rfl, rfl⟩ := hpart.unique hlaid.names hpart' hsame
    rfl
  · have hgiven' : (fields'.map (·.1)).Nodup := (hperm.map _).nodup_iff.2 hgiven
    obtain ⟨code, hyields, hruns⟩ := operandAt_struct (Shapes.laysOut_ofStore hlaid) hframed hlow hhigh
      hout hin hslot hgiven' (fun f hf => hfields f (hperm.subset hf)) hname q r' hvalid (.refl r) h
    refine ⟨code, hyields, fun a hp hs hone => ?_⟩
    obtain ⟨t, hrun, hpc, hsteady, hq, hwords, hother⟩ := hruns a s hp hs hone (.refl r s)
    refine ⟨t, hrun, hpc, hsteady, hq, fun hpart i hi => ?_, hother⟩
    rw [hwords hpart i hi, memberWords, memberWords]
    simp only [(hperm.map _).mem_iff]

/-- A struct of a byte, two bytes and a byte. -/
def triple : List (Member Ty) :=
  [⟨"a", .byte, none⟩, ⟨"b", .array .byte 2 none, none⟩, ⟨"c", .byte, none⟩]

/-- A function without parameters and locals. -/
def builder : Routine := Routine.create "f" (.stack {})

/-- Two of the members are given. -/
def givenFields : List (String × Expr) := [("c", .integer 7), ("a", .integer 5)]

/-- The literal with some fields leaves the words 5, 0, 0 and 7. -/
def BuildsTriple (fields : List (String × Expr)) : Prop :=
  ∃ q r' image t, compileExpr (.ofStore {}) (.struct (some triple) fields) false builder = .ok q r' ∧
    Image.assemble r'.code.toList 64 = .ok image ∧ Reaches image [] (frameStart image) t ∧
      t.reg q = 52 ∧ t.word 52 = 5 ∧ t.word 53 = 0 ∧ t.word 54 = 0 ∧ t.word 55 = 7

/-- With the last member and the first one given, the words do not depend on the order. -/
theorem struct_literal_reversed : BuildsTriple givenFields ∧ BuildsTriple givenFields.reverse := by
  suffices hboth : ∀ fields ∈ [givenFields, givenFields.reverse], BuildsTriple fields from
    ⟨hboth _ (by simp), hboth _ (by simp)⟩
  intro fields hmem
  have hassembles : ∀ fields ∈ [givenFields, givenFields.reverse],
      assembles (compileExpr (.ofStore {}) (.struct (some triple) fields) false) builder = true := by
    decide +kernel
  obtain ⟨q, r', image, hgenerated, himage⟩ := exists_of_assembles (hassembles fields hmem)
  have hmemory := Machine.size_memory_of_assemble himage
  have hsize := frameStart_size hmemory
  have hframe : frameSlot builder (frameStart image) = 46 := rfl
  have hlaid : Types.Laid {} triple [1, 2, 1] :=
    ⟨by decide, .cons ⟨1, rfl⟩ (.cons ⟨2, rfl⟩ (.cons ⟨1, rfl⟩ .nil)), by decide⟩
  have hslot : ∀ slot r₁, temporary 4 builder = .ok slot r₁ →
      slotWord image builder slot (frameStart image) = 52 := by
    rintro slot r₁ h
    cases h
    exact congrArg (· - 4) (frameStart_word hmemory)
  have hfields : ∀ f ∈ givenFields, ∃ m offset size, Part triple [1, 2, 1] m offset size ∧
      m.name = f.1 ∧ Operand image [] builder (frameStart image) 52 56
        (compileExpr (.ofStore {}) f.2 false) (Offers (.ofStore {}) m.type size
          (if f.1 = "a" then fun _ => 5 else fun _ => 7) 52 4 52 56) := by
    simp only [givenFields, List.forall_mem_cons, List.not_mem_nil, false_imp_iff, implies_true,
      and_true]
    exact ⟨⟨_, _, _, .tail (.tail .head), rfl, operand_constant rfl fun _ _ => rfl⟩,
      _, _, _, .head, rfl, operand_constant rfl fun _ _ => rfl⟩
  obtain ⟨-, hliteral⟩ := @struct_literal image [] {} triple [1, 2, 1]
    (fun name => if name = "a" then fun _ => 5 else fun _ => 7) givenFields builder (frameStart image)
    52 56 52 hlaid Pool.valid_empty (by decide) (frameStart_framed hmemory rfl) (by decide) (by decide)
    (by rw [hframe]; decide) (by rw [hsize]; decide) hslot (by decide) hfields
  have hperm : fields.Perm givenFields := by
    rcases List.mem_pair.1 hmem with rfl | rfl
    · exact .refl _
    · exact givenFields.reverse_perm
  obtain ⟨code, hyields, hruns⟩ := hliteral fields hperm false q r' hgenerated
  have hcode : r'.code.toList = code := by simp [hyields.code, builder, Routine.create]
  obtain ⟨-, hle, -⟩ := Machine.assemble_ok himage
  have hplaced := Machine.placed_of_assemble himage (by omega)
  obtain ⟨t, hrun, -, -, hq, hwords, -⟩ := hruns 0 (hcode ▸ hplaced) rfl rfl
  exact ⟨q, r', image, t, hgenerated, himage, hrun, hq, hwords .head 0 (by decide),
    hwords (.tail .head) 0 (by decide), hwords (.tail .head) 1 (by decide),
    hwords (.tail (.tail .head)) 0 (by decide)⟩

/-- A struct of a byte, three blocks with a sum of sizes beyond what can be represented, and a byte. -/
def wrapped : List (Member Ty) :=
  [⟨"a", .byte, none⟩, ⟨"p", .array (.array .byte 6148914691236517205 none) 3 none, none⟩,
    ⟨"b", .byte, none⟩]

/-- Sizes are not bounded and wrap around. Behind a member of size -1 the next one stands where the
one in front of it does, so that 7 is found where 5 was stored. -/
theorem struct_literal_overlaps :
    Types.size (.struct wrapped none) {} = .ok 1 {} ∧
    Types.findMember wrapped "a" {} = .ok (some (⟨"a", .byte, none⟩, 0)) {} ∧
    Types.findMember wrapped "b" {} = .ok (some (⟨"b", .byte, none⟩, 0)) {} ∧
    ∃ q r' image t, compileExpr (.ofStore {})
        (.struct (some wrapped) [("a", .integer 5), ("b", .integer 7)]) false builder = .ok q r' ∧
      Image.assemble r'.code.toList 64 = .ok image ∧ Reaches image [] (frameStart image) t ∧
        t.word (t.reg q).toNat = 7 := by
  refine ⟨rfl, rfl, rfl, ?_⟩
  obtain ⟨q, r', image, t, hx, himage, hrun, hok⟩ := @exists_of_holdsAfter
    (compileExpr (.ofStore {}) (.struct (some wrapped) [("a", .integer 5), ("b", .integer 7)]) false)
    builder 19 (fun _ q t => t.word (t.reg q).toNat == 7) (by decide +kernel)
  exact ⟨q, r', image, t, hx, himage, hrun, beq_iff_eq.1 hok⟩

end Qll.Codegen
