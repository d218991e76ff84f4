import Qll.Proofs.Codegen.Building

/-!
# Registers in use

A pool is valid when the registers in use are distinct and can be taken. Taking a register puts a
new one in front, and giving it back removes it, so a piece of code that takes and gives back in
turn leaves the same registers in use, in some order.
-/

namespace Qll.Codegen

open Machine (Register)
open Qll.Computation

/-- The registers in use are distinct and were taken, and only ordinary registers were. -/
structure Pool.Valid (p : Pool) : Prop where
  nodup : p.live.Nodup
  live_ever : ∀ q ∈ p.live, q ∈ p.ever
  ever_allocatable : ∀ q ∈ p.ever, q ∈ Pool.allocatable

namespace Pool

variable {p p' : Pool} {q : Register}

/-- Nothing is in use at first. -/
theorem valid_empty : Valid {} := ⟨List.nodup_nil, by simp, by simp⟩

/-- The registers that can be taken are those from `r1` to `r61`. -/
theorem mem_allocatable : q ∈ allocatable ↔ 1 ≤ q.toNat ∧ q.toNat ≤ 61 := by
  constructor
  · intro h
    obtain ⟨n, hn, rfl⟩ := List.mem_map.1 h
    have hlt : n < 61 := List.mem_range.1 hn
    have htoNat : (Register.ofNat (n + 1)).toNat = n + 1 := by
      simp only [Register.ofNat, Register.toNat, UInt8.toNat_ofNat']
      omega
    omega
  · intro h
    refine List.mem_map.2 ⟨q.toNat - 1, List.mem_range.2 (by omega), ?_⟩
    rw [Nat.sub_add_cancel h.1]
    simp [Register.ofNat, Register.toNat]

/-- The registers that can be taken are listed in ascending order. -/
theorem allocatable_ascending : allocatable.Pairwise (·.toNat < ·.toNat) := by decide

/-- Each register that can be taken is listed once. -/
theorem nodup_allocatable : allocatable.Nodup :=
  allocatable_ascending.imp fun h heq => by simp [heq] at h

/-- A register that can be taken is an ordinary one. -/
theorem writable_of_mem (h : q ∈ allocatable) : q.Writable :=
  Register.writable_of_lt (by have := mem_allocatable.1 h; omega)

/-- The stack pointer cannot be taken. -/
theorem ne_sp_of_mem (h : q ∈ allocatable) : q ≠ .sp := by
  rintro rfl
  exact absurd h (by decide)

/-- The return register cannot be taken. -/
theorem ne_result_of_mem (h : q ∈ allocatable) : q ≠ .result := by
  rintro rfl
  exact absurd h (by decide)

/-- A taken register is new and comes in front. -/
theorem allocate_eq_ok (h : p.allocate = .ok (q, p')) :
    q ∈ allocatable ∧ q ∉ p.live ∧ p'.live = q :: p.live ∧
      ∀ x, x ∈ p'.ever ↔ x = q ∨ x ∈ p.ever := by
  unfold allocate at h
  split at h
  · next r hr =>
    cases h
    have hfree := List.find?_some hr
    refine ⟨List.mem_of_find?_eq_some hr, by simpa [isAllocated] using hfree, rfl, fun x => ?_⟩
    dsimp only
    split
    · next hmem =>
      have hmem : q ∈ p.ever := List.contains_iff_mem.1 hmem
      exact ⟨.inr, fun h => h.elim (fun h => h ▸ hmem) id⟩
    · exact List.mem_cons
  · cases h

/-- A taken register is remembered. -/
theorem mem_ever_of_allocate (h : p.allocate = .ok (q, p')) : q ∈ p'.ever :=
  ((allocate_eq_ok h).2.2.2 q).2 (.inl rfl)

/-- A register that is given back was in use. -/
theorem release_eq_ok (h : p.release q = .ok p') :
    q ∈ p.live ∧ p' = { p with live := p.live.erase q } := by
  unfold release at h
  split at h
  · next hmem =>
    cases h
    exact ⟨by simpa [isAllocated] using hmem, rfl⟩
  · cases h

/-- A register that is given back stays among those that were taken. -/
theorem release_ever (h : p.release q = .ok p') : p'.ever = p.ever := by
  rw [(release_eq_ok h).2]

/-- Taking a register keeps a pool valid. -/
theorem Valid.allocate (hp : p.Valid) (h : p.allocate = .ok (q, p')) : p'.Valid := by
  obtain ⟨hmem, hnew, hlive, hever⟩ := allocate_eq_ok h
  refine ⟨hlive ▸ List.nodup_cons.2 ⟨hnew, hp.nodup⟩, fun x hx => ?_, fun x hx => ?_⟩
  · rw [hlive, List.mem_cons] at hx
    exact (hever x).2 (hx.imp_right (hp.live_ever x))
  · rcases (hever x).1 hx with rfl | hx
    · exact hmem
    · exact hp.ever_allocatable x hx

/-- Giving a register back keeps a pool valid. -/
theorem Valid.release (hp : p.Valid) (h : p.release q = .ok p') : p'.Valid := by
  obtain ⟨-, rfl⟩ := release_eq_ok h
  exact ⟨hp.nodup.erase q, fun x hx => hp.live_ever x (List.mem_of_mem_erase hx),
    hp.ever_allocatable⟩

/-- A register in use can be taken. -/
theorem Valid.allocatable (hp : p.Valid) (h : q ∈ p.live) : q ∈ Pool.allocatable :=
  hp.ever_allocatable q (hp.live_ever q h)

/-! ### Free registers -/

/-- The registers that can still be taken, in the order in which they are. -/
def free (p : Pool) : List Register := allocatable.filter fun q => !p.isAllocated q

/-- A register is free if it can be taken and is not in use. -/
theorem mem_free : q ∈ p.free ↔ q ∈ allocatable ∧ q ∉ p.live := by
  simp [free, isAllocated]

/-- The register that is taken is the first free one; the others stay free. -/
theorem free_of_allocate (h : p.allocate = .ok (q, p')) : p.free = q :: p'.free := by
  obtain ⟨-, -, hlive, -⟩ := allocate_eq_ok h
  have hhead : p.free.head? = some q := by
    unfold allocate at h
    split at h
    · next r hr =>
      cases h
      rw [free, List.head?_filter, hr]
    · cases h
  obtain ⟨rest, hfree⟩ := List.head?_eq_some_iff.1 hhead
  have hnodup : p.free.Nodup := nodup_allocatable.filter _
  have hrest : p'.free = p.free.filter (· ≠ q) := by
    rw [free, free, List.filter_filter]
    refine List.filter_congr fun x _ => ?_
    simp [isAllocated, hlive]
  rw [hfree, List.nodup_cons] at hnodup
  rw [hrest, hfree, List.filter_cons_of_neg (by simp), List.filter_eq_self.2]
  intro x hx
  simp only [ne_eq, decide_not, Bool.not_eq_eq_eq_not, Bool.not_true, decide_eq_false_iff_not]
  rintro rfl
  exact hnodup.1 hx

/-- As long as a register is free, one can be taken. -/
theorem allocate_of_free {rest : List Register} (h : p.free = q :: rest) :
    ∃ p', p.allocate = .ok (q, p') ∧ p'.free = rest := by
  have hfind : allocatable.find? (fun x => !p.isAllocated x) = some q := by
    rw [← List.head?_filter]
    exact congrArg List.head? h
  have hallocate : ∃ p', p.allocate = .ok (q, p') := by
    unfold allocate
    rw [hfind]
    exact ⟨_, rfl⟩
  obtain ⟨p', hp'⟩ := hallocate
  exact ⟨p', hp', (List.cons.inj ((free_of_allocate hp').symm.trans h)).2⟩

/-- A register in use can be given back. -/
theorem release_of_mem (h : q ∈ p.live) : p.release q = .ok { p with live := p.live.erase q } := by
  simp [release, isAllocated, h]

/-- A register of the machine that a pool does not hand out: one in use, or a reserved one. -/
structure Withholds (p : Pool) (q : Register) : Prop where
  lt : q.toNat < 64
  notFree : q ∉ p.free

/-- Registers in use are withheld. -/
theorem Valid.withholds (hp : p.Valid) (h : q ∈ p.live) : p.Withholds q :=
  ⟨(writable_of_mem (hp.allocatable h)).lt, fun hq => (mem_free.1 hq).2 h⟩

/-- Registers that cannot be taken at all are withheld. -/
theorem withholds_of_reserved (h : q = .result ∨ q = .one ∨ q = .sp) : p.Withholds q := by
  refine ⟨?_, fun hq => absurd (mem_free.1 hq).1 ?_⟩ <;> obtain rfl | rfl | rfl := h <;> decide

namespace Withholds

/-- A withheld register is not the one that is taken. -/
theorem ne {x : Register} (h : p.Withholds x) (ha : p.allocate = .ok (q, p')) : x ≠ q := by
  rintro rfl
  exact h.notFree (free_of_allocate ha ▸ List.mem_cons_self)

/-- A withheld register stays withheld while others are taken. -/
theorem allocate {x : Register} (h : p.Withholds x) (ha : p.allocate = .ok (q, p')) :
    p'.Withholds x :=
  ⟨h.lt, fun hx => h.notFree (free_of_allocate ha ▸ List.mem_cons_of_mem q hx)⟩

end Withholds

end Pool

/-! ## Registers that are left alone -/

/-- The registers that code generated between two states of a routine leaves alone: those in use
before, and those that were never taken. -/
def Untouched (p p' : Pool) (q : Register) : Prop := q ∈ p.live ∨ q ∉ p'.ever

namespace Untouched

variable {p p₁ p' : Pool} {q : Register}

/-- What is left alone by a whole is left alone by its first part. -/
theorem first (h : Untouched p p' q) (hever : ∀ x ∈ p₁.ever, x ∈ p'.ever) : Untouched p p₁ q :=
  h.imp_right fun hq hmem => hq (hever q hmem)

/-- What is left alone by a whole is left alone by its second part. -/
theorem second (h : Untouched p p' q) (hlive : ∀ x ∈ p.live, x ∈ p₁.live) : Untouched p₁ p' q :=
  h.imp_left (hlive q)

/-- A register that is taken and was not in use is not left alone. -/
theorem ne {t : Register} (h : Untouched p p' q) (hnew : t ∉ p.live) (hever : t ∈ p'.ever) :
    q ≠ t := by
  rintro rfl
  exact h.elim hnew fun h => h hever

/-- The stack pointer is left alone. -/
theorem sp (hp : p'.Valid) : Untouched p p' .sp :=
  .inr fun h => absurd (hp.ever_allocatable _ h) (by decide)

/-- The return register is left alone. -/
theorem result (hp : p'.Valid) : Untouched p p' .result :=
  .inr fun h => absurd (hp.ever_allocatable _ h) (by decide)

end Untouched

/-! ## The history of a register pool

Registers are taken and given back in any order, also wrongly: a pool may be asked for more than
it has, and may be handed a register that it never gave out. A refused call leaves the pool as it
was. The history of the calls that succeeded tells which registers are out and which were ever
handed out, without looking into the pool; what the pool answers is compared with that. -/

/-- A call on a pool. -/
inductive PoolCall
  | take
  | give (r : Register)

/-- A call that succeeded. -/
inductive PoolEvent
  | taken (r : Register)
  | given (r : Register)

/-- The registers handed out and not yet given back, after events that are listed latest first. -/
def heldAfter : List PoolEvent → List Register
  | [] => []
  | .taken r :: earlier => r :: heldAfter earlier
  | .given r :: earlier => (heldAfter earlier).erase r

/-- The registers handed out at any time. -/
def handedOut : List PoolEvent → List Register
  | [] => []
  | .taken r :: earlier => r :: handedOut earlier
  | .given _ :: earlier => handedOut earlier

/-- A pool together with the events that led to it, the latest first. -/
structure PoolLog where
  events : List PoolEvent := []
  pool : Pool := {}

namespace PoolLog

/-- One call; a refused one leaves everything as it was. -/
def call (l : PoolLog) : PoolCall → PoolLog
  | .take =>
    match l.pool.allocate with
    | .ok (r, p) => { events := .taken r :: l.events, pool := p }
    | .error _ => l
  | .give r =>
    match l.pool.release r with
    | .ok p => { events := .given r :: l.events, pool := p }
    | .error _ => l

/-- A sequence of calls on a new pool. -/
def run (calls : List PoolCall) : PoolLog := calls.foldl call {}

end PoolLog

/-! ## What a pool answers -/

/-- The register is the lowest one of its kind that is not out. -/
structure LowestFree (kind : Register → Bool) (out : List Register) (r : Register) : Prop where
  ofKind : kind r = true
  free : r ∉ out
  lowest : ∀ q, kind q = true → q ∉ out → r.toNat ≤ q.toNat

/-- The register is the lowest free caller-save one, or the lowest free callee-save one when
every caller-save register is out. -/
def NextFree (out : List Register) (r : Register) : Prop :=
  LowestFree Register.isCallerSave out r ∨
    (∀ q, q.isCallerSave = true → q ∈ out) ∧ LowestFree Register.isCalleeSave out r

/-- The list is strictly ascending and holds exactly the registers with a property. -/
structure Lists (regs : List Register) (P : Register → Prop) : Prop where
  ascending : regs.Pairwise (·.toNat < ·.toNat)
  mem_iff : ∀ r, r ∈ regs ↔ P r

namespace Pool

variable {p : Pool} {q r : Register}

/-- A register can be taken exactly if it is caller-save or callee-save. -/
theorem mem_allocatable_iff_save :
    q ∈ allocatable ↔ q.isCallerSave = true ∨ q.isCalleeSave = true := by
  simp only [mem_allocatable, Register.isCallerSave, Register.isCalleeSave, Bool.and_eq_true,
    decide_eq_true_eq]
  omega

/-- Any selection of the registers that can be taken is in ascending order. -/
theorem lists_filter {keep : Register → Bool} {P : Register → Prop}
    (hP : ∀ x, (x ∈ allocatable ∧ keep x = true) ↔ P x) : Lists (allocatable.filter keep) P :=
  ⟨allocatable_ascending.filter keep, fun x => List.mem_filter.trans (hP x)⟩

/-- A caller-save register is lower than a callee-save one. -/
theorem callerSave_lt_calleeSave (hq : q.isCallerSave = true) (hr : r.isCalleeSave = true) :
    q.toNat < r.toNat := by
  simp only [Register.isCallerSave, Register.isCalleeSave, Bool.and_eq_true,
    decide_eq_true_eq] at hq hr
  omega

/-- The next free register is the lowest free one of all that can be taken. -/
theorem nextFree_iff {out : List Register} :
    NextFree out r ↔ LowestFree (allocatable.contains ·) out r := by
  constructor
  · rintro (h | ⟨hfull, h⟩)
    · refine ⟨by simpa [mem_allocatable_iff_save] using .inl h.ofKind, h.free, fun q hq hfree => ?_⟩
      rcases mem_allocatable_iff_save.1 (List.contains_iff_mem.1 hq) with hq | hq
      · exact h.lowest q hq hfree
      · exact (callerSave_lt_calleeSave h.ofKind hq).le
    · refine ⟨by simpa [mem_allocatable_iff_save] using .inr h.ofKind, h.free, fun q hq hfree => ?_⟩
      rcases mem_allocatable_iff_save.1 (List.contains_iff_mem.1 hq) with hq | hq
      · exact absurd (hfull q hq) hfree
      · exact h.lowest q hq hfree
  · intro h
    have hlowest : ∀ q ∈ allocatable, q ∉ out → r.toNat ≤ q.toNat :=
      fun q hq => h.lowest q (List.contains_iff_mem.2 hq)
    rcases mem_allocatable_iff_save.1 (List.contains_iff_mem.1 h.ofKind) with hr | hr
    · exact .inl ⟨hr, h.free, fun q hq => hlowest q (mem_allocatable_iff_save.2 (.inl hq))⟩
    · refine .inr ⟨fun q hq => ?_, hr, h.free,
        fun q hq => hlowest q (mem_allocatable_iff_save.2 (.inr hq))⟩
      by_contra hfree
      exact (callerSave_lt_calleeSave hq hr).not_ge
        (hlowest q (mem_allocatable_iff_save.2 (.inl hq)) hfree)

/-- A pool hands out a register exactly if it is the next free one. -/
theorem allocate_iff : (∃ p', p.allocate = .ok (r, p')) ↔ NextFree p.live r := by
  rw [nextFree_iff]
  have hfound : (∃ p', p.allocate = .ok (r, p')) ↔
      allocatable.find? (fun x => !p.isAllocated x) = some r := by
    unfold allocate
    split
    · next t ht => simp [ht, eq_comm]
    · next hnone => simp [hnone]
  rw [hfound, List.find?_eq_some_iff_append]
  constructor
  · rintro ⟨hfree, before, after, hsplit, hbefore⟩
    refine ⟨by simp [hsplit], by simpa [isAllocated] using hfree, fun q hq hout => ?_⟩
    have hascending := hsplit ▸ allocatable_ascending
    rw [List.pairwise_append, List.pairwise_cons] at hascending
    rcases List.mem_append.1 (hsplit ▸ List.contains_iff_mem.1 hq) with hmem | hmem
    · exact absurd (by simpa [isAllocated] using hbefore q hmem) hout
    rcases List.mem_cons.1 hmem with rfl | hmem
    · exact le_rfl
    · exact (hascending.2.1.1 q hmem).le
  · intro h
    obtain ⟨before, after, hsplit⟩ := List.append_of_mem (List.contains_iff_mem.1 h.ofKind)
    refine ⟨by simpa [isAllocated] using h.free, before, after, hsplit, fun x hx => ?_⟩
    -- a free register further in front would be lower
    have hlt : x.toNat < r.toNat :=
      (List.pairwise_append.1 (hsplit ▸ allocatable_ascending)).2.2 x hx r List.mem_cons_self
    by_contra hfree
    exact hlt.not_ge (h.lowest x (by simp [hsplit, hx]) (by simpa [isAllocated] using hfree))

/-- A pool refuses to hand out a register exactly when every one is in use. -/
theorem allocate_eq_error {f : Fault} :
    p.allocate = .error f ↔
      (∀ x ∈ allocatable, x ∈ p.live) ∧ f = .registersExhausted p.outstanding := by
  unfold allocate
  split
  · next t ht =>
    have hfree : t ∉ p.live := by simpa [isAllocated] using List.find?_some ht
    exact ⟨nofun, fun h => absurd (h.1 t (List.mem_of_find?_eq_some ht)) hfree⟩
  · next hnone =>
    have hall : ∀ x ∈ allocatable, x ∈ p.live := by
      simpa [isAllocated] using List.find?_eq_none.1 hnone
    exact ⟨fun h => ⟨hall, by cases h; rfl⟩, fun h => by rw [h.2]⟩

/-- A pool refuses to take back a register exactly if it is not in use. -/
theorem release_eq_error {f : Fault} :
    p.release r = .error f ↔ r ∉ p.live ∧ f = .notAllocated r := by
  unfold release
  split
  · next hmem =>
    exact ⟨nofun, fun h => absurd (by simpa [isAllocated] using hmem) h.1⟩
  · next hmem =>
    have hfree : r ∉ p.live := by simpa [isAllocated] using hmem
    exact ⟨fun h => ⟨hfree, by cases h; rfl⟩, fun h => by rw [h.2]⟩

/-- Every register is in use exactly if 61 are. -/
theorem Valid.full_iff (hp : p.Valid) :
    (∀ x ∈ Pool.allocatable, x ∈ p.live) ↔ p.live.length = 61 := by
  have hlength : Pool.allocatable.length = 61 := rfl
  have hlive : p.live ⊆ Pool.allocatable := fun _ => hp.allocatable
  constructor
  · intro hall
    exact le_antisymm (hlength ▸ (hp.nodup.subperm hlive).length_le)
      (hlength ▸ (nodup_allocatable.subperm hall).length_le)
  · intro h x hx
    have hperm := (hp.nodup.subperm hlive).perm_of_length_le (by omega)
    exact hperm.mem_iff.2 hx

end Pool

/-- What a pool answers is what its history calls for. -/
structure Pool.Accounts (p : Pool) (events : List PoolEvent) : Prop where
  distinct : (heldAfter events).Nodup
  ordinary : ∀ r ∈ heldAfter events, 1 ≤ r.toNat ∧ r.toNat ≤ 61
  outstanding : p.outstanding = (heldAfter events).length
  next : ∀ r, (∃ p', p.allocate = .ok (r, p')) ↔ NextFree (heldAfter events) r
  exhausted : ∀ f, p.allocate = .error f ↔
    (heldAfter events).length = 61 ∧ f = .registersExhausted 61
  misused : ∀ r f, p.release r = .error f ↔ r ∉ heldAfter events ∧ f = .notAllocated r
  liveCallerSave : Lists p.liveCallerSave fun r => r ∈ heldAfter events ∧ r.isCallerSave = true
  used : Lists p.used fun r => r ∈ handedOut events
  calleeSaveUsed : Lists p.calleeSaveUsed fun r =>
    r ∈ handedOut events ∧ r.isCalleeSave = true

namespace PoolLog

/-- The pool holds what its history says is out, and remembers what was handed out. -/
structure Faithful (l : PoolLog) : Prop where
  valid : l.pool.Valid
  live : l.pool.live = heldAfter l.events
  ever : ∀ r, r ∈ l.pool.ever ↔ r ∈ handedOut l.events

/-- A new pool has no history. -/
theorem faithful_new : Faithful {} := ⟨Pool.valid_empty, rfl, fun _ => Iff.rfl⟩

/-- Each call keeps pool and history in step. -/
theorem Faithful.call {l : PoolLog} (h : l.Faithful) (c : PoolCall) : (l.call c).Faithful := by
  cases c with
  | take =>
    dsimp only [PoolLog.call]
    split
    · next r p hp =>
      obtain ⟨-, -, hlive, hever⟩ := Pool.allocate_eq_ok hp
      refine ⟨h.valid.allocate hp, by rw [hlive, h.live, heldAfter], fun x => ?_⟩
      rw [hever, h.ever, handedOut, List.mem_cons]
    · exact h
  | give r =>
    dsimp only [PoolLog.call]
    split
    · next p hp =>
      refine ⟨h.valid.release hp, ?_, fun x => ?_⟩
      · rw [(Pool.release_eq_ok hp).2, heldAfter, h.live]
      · rw [Pool.release_ever hp, h.ever, handedOut]
    · exact h

/-- Pool and history stay in step over a whole sequence of calls. -/
theorem faithful_run (calls : List PoolCall) : (run calls).Faithful := by
  suffices hall : ∀ l : PoolLog, l.Faithful → (calls.foldl PoolLog.call l).Faithful from
    hall {} faithful_new
  induction calls with
  | nil => exact fun _ h => h
  | cons c rest ih => exact fun l h => ih (l.call c) (h.call c)

/-- A pool in step with its history answers as the history calls for. -/
theorem Faithful.accounts {l : PoolLog} (h : l.Faithful) : l.pool.Accounts l.events where
  distinct := h.live ▸ h.valid.nodup
  ordinary r hr := Pool.mem_allocatable.1 (h.valid.allocatable (h.live ▸ hr))
  outstanding := by rw [Pool.outstanding, h.live]
  next r := by rw [Pool.allocate_iff, h.live]
  exhausted f := by
    rw [Pool.allocate_eq_error, h.valid.full_iff, Pool.outstanding, h.live]
    exact and_congr_right fun hall => by rw [hall]
  misused r f := by rw [Pool.release_eq_error, h.live]
  liveCallerSave := Pool.lists_filter fun x => by
    rw [Pool.isAllocated, Bool.and_eq_true, List.contains_iff_mem, ← h.live]
    exact ⟨fun hx => ⟨hx.2.2, hx.2.1⟩, fun hx => ⟨h.valid.allocatable hx.1, hx.2, hx.1⟩⟩
  used := Pool.lists_filter fun x => by
    rw [List.contains_iff_mem, ← h.ever]
    exact ⟨And.right, fun hx => ⟨h.valid.ever_allocatable x hx, hx⟩⟩
  calleeSaveUsed := by
    rw [Pool.calleeSaveUsed, Pool.used, List.filter_filter]
    refine Pool.lists_filter fun x => ?_
    rw [Bool.and_eq_true, List.contains_iff_mem, ← h.ever]
    exact ⟨fun hx => ⟨hx.2.2, hx.2.1⟩, fun hx => ⟨h.valid.ever_allocatable x hx.1, hx.2, hx.1⟩⟩

/-- After any sequence of calls, refused ones among them, a pool accounts for its history. -/
theorem pool_accounts_for_history (calls : List PoolCall) :
    (run calls).pool.Accounts (run calls).events :=
  (faithful_run calls).accounts

/-- A callee-save register that was given back stays among those a prologue saves. -/
example :
    (run (List.replicate 31 .take ++ [.give ⟨31⟩, .give ⟨31⟩, .give ⟨2⟩, .take])).pool.calleeSaveUsed =
      [⟨31⟩] := by decide +kernel

end PoolLog

end Qll.Codegen
