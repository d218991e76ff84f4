import Qll.Proofs.Codegen.Activation
import Qll.Proofs.Codegen.Calling

/-!
# The layout of an activation

A caller pushes the address for a result and the arguments from left to right; a callee counts the
distances of its parameters from its frame pointer, from right to left. Both arrive at the same
addresses: parameter `i` starts above the stack pointer of the entry by the words of the parameters
behind it. Below, locals and temporaries take the words under the frame pointer in the order of
their requests, so that an address keeps its meaning when the frame grows. From the address of the
result down to the saved frame pointer the parts of an activation lie one below the other without a
gap, which is what makes them disjoint.
-/

namespace Qll.Codegen

open Assembly (Directive totalSize)
open Check (Storage)
open Machine (Register Opcode Word Image Handlers State Placed Reaches ins addExtent)
open Qll.Computation

/-! ## Parameters -/

/-- The words of parameters. -/
def paramWords (params : List Param) : Nat := Number.total (fun p => p.size.toNat) params

/-- The words of a parameter are counted first. -/
@[simp] theorem paramWords_cons (p : Param) (params : List Param) :
    paramWords (p :: params) = p.size.toNat + paramWords params := rfl

/-- The order of parameters does not matter to their words. -/
@[simp] theorem paramWords_reverse (params : List Param) :
    paramWords params.reverse = paramWords params := by
  induction params with
  | nil => rfl
  | cons p params ih =>
    rw [List.reverse_cons, paramWords, Number.total_append, ← paramWords, ih, paramWords_cons,
      Number.total_cons, Number.total_nil]
    omega

/-- Parameters are placed one above the other. -/
theorem placeParams_spec {params : List Param} (above : Nat) (placed : List (Nat × Int))
    (hsizes : ∀ p ∈ params, 0 ≤ p.size) (hids : (params.map (·.storage.id)).Nodup)
    (hbound : above + paramWords params < 9223372036854775808) :
    (StackFrame.placeParams params above placed).2 = (above + paramWords params : Nat) ∧
      (∀ i p, params[i]? = some p →
        (StackFrame.placeParams params above placed).1.lookup p.storage.id =
          some ((above + paramWords (params.take i) : Nat) : Int)) ∧
      ∀ id, id ∉ params.map (·.storage.id) →
        (StackFrame.placeParams params above placed).1.lookup id = placed.lookup id := by
  induction params generalizing above placed with
  | nil => simp [StackFrame.placeParams, paramWords]
  | cons p params ih =>
    have hp := hsizes p List.mem_cons_self
    rw [paramWords_cons] at hbound
    simp only [List.map_cons, List.nodup_cons] at hids
    have hnext : addExtent (above : Int) p.size = (above + p.size.toNat : Nat) := by
      rw [addExtent_eq_add (by omega) (by omega)]
      omega
    obtain ⟨hend, hlookup, hother⟩ := ih (above + p.size.toNat)
      ((p.storage.id, (above : Int)) :: placed)
      (fun q hq => hsizes q (List.mem_cons_of_mem p hq)) hids.2 (by omega)
    simp only [StackFrame.placeParams, hnext]
    refine ⟨?_, fun i q hq => ?_, fun id hid => ?_⟩
    · rw [hend, paramWords_cons, Nat.add_assoc]
    · cases i with
      | zero =>
        obtain rfl : p = q := by simpa using hq
        rw [hother _ hids.1]
        simp [paramWords]
      | succ i =>
        rw [hlookup i q (by simpa using hq), List.take_succ_cons, paramWords_cons, Nat.add_assoc]
    · simp only [List.map_cons, List.mem_cons, not_or] at hid
      rw [hother id hid.2, List.lookup_cons, beq_false_of_ne hid.1]

/-- The frame of a function: where its parameters stand, and the address of its result. -/
theorem ofParams_spec {params : List Param} (hidden : Bool) (hsizes : ∀ p ∈ params, 0 ≤ p.size)
    (hids : (params.map (·.storage.id)).Nodup)
    (hbound : paramWords params + 1 < 9223372036854775808) :
    (∀ i p, params[i]? = some p → (StackFrame.ofParams params hidden).params.lookup p.storage.id =
      some ((1 + paramWords (params.drop (i + 1)) : Nat) : Int)) ∧
      (∀ id, id ∉ params.map (·.storage.id) →
        (StackFrame.ofParams params hidden).params.lookup id = none) ∧
      (StackFrame.ofParams params hidden).result =
        if hidden then ((1 + paramWords params : Nat) : Int) else -1 := by
  obtain ⟨hend, hlookup, hother⟩ := placeParams_spec 1 [] (fun p hp => hsizes p (List.mem_reverse.1 hp))
    (by rw [List.map_reverse]; exact List.pairwise_reverse.2 (hids.imp Ne.symm))
    (by rw [paramWords_reverse]; omega)
  rw [paramWords_reverse] at hend
  refine ⟨fun i p hp => ?_, fun id hid => ?_, ?_⟩
  · have hi : i < params.length := (List.getElem?_eq_some_iff.1 hp).1
    have hrev : params.reverse[params.length - 1 - i]? = some p := by
      rw [List.getElem?_reverse (by omega), show params.length - 1 - (params.length - 1 - i) = i by
        omega]
      exact hp
    have htake : params.reverse.take (params.length - 1 - i) = (params.drop (i + 1)).reverse := by
      rw [List.take_reverse, show params.length - (params.length - 1 - i) = i + 1 by omega]
    have := hlookup _ p hrev
    rwa [htake, paramWords_reverse] at this
  · exact hother id (by rw [List.map_reverse, List.mem_reverse]; exact hid)
  · simp only [StackFrame.ofParams]
    rw [show (1 : Int) = ((1 : Nat) : Int) from rfl, hend]

/-! ## Locals and temporaries -/

/-- A piece of storage that was requested below the frame pointer, and the local it belongs to; a
temporary belongs to none. -/
structure Grant where
  owner : Option Nat
  slot : Slot

/-- The words of requested storage. -/
def grantedWords (granted : List Grant) : Nat := Number.total (fun g => g.slot.size.toNat) granted

/-- The words of a granted slot are counted first. -/
@[simp] theorem grantedWords_cons (g : Grant) (granted : List Grant) :
    grantedWords (g :: granted) = g.slot.size.toNat + grantedWords granted := rfl

/-- The frames that a function with these parameters has while its body is built, with what was
requested so far, the latest first. -/
inductive Laid (params : List Param) (hidden : Bool) : StackFrame → List Grant → Prop
  | start : Laid params hidden (.ofParams params hidden) []
  | declared {f f' : StackFrame} {granted : List Grant} {r r' : Routine} {st : Storage} {size : Int}
      (before : Laid params hidden f granted) (hr : r.frame = .stack f)
      (other : st.id ∉ params.map (·.storage.id)) (hsize : 0 ≤ size)
      (request : declareLocal st size r = .ok () r') (hr' : r'.frame = .stack f') :
      Laid params hidden f' (⟨some st.id, ⟨f'.size, size⟩⟩ :: granted)
  | reserved {f f' : StackFrame} {granted : List Grant} {r r' : Routine} {slot : Slot} {size : Int}
      (before : Laid params hidden f granted) (hr : r.frame = .stack f) (hsize : 0 ≤ size)
      (request : temporary size r = .ok slot r') (hr' : r'.frame = .stack f') :
      Laid params hidden f' (⟨none, slot⟩ :: granted)

/-- A local is declared once, at the end of the frame. -/
theorem declareLocal_stack {f f' : StackFrame} {r r' : Routine} {st : Storage} {size : Int}
    (hr : r.frame = .stack f) (h : declareLocal st size r = .ok () r') (hr' : r'.frame = .stack f') :
    f.locals.lookup st.id = none ∧
      f' = { f with size := addExtent f.size size, locals := (st.id, addExtent f.size size) :: f.locals } := by
  simp only [declareLocal, get_bind_ok, guard_ok, hr, set_ok] at h
  obtain ⟨-, hnew, rfl⟩ := h
  exact ⟨Option.not_isSome_iff_eq_none.1 hnew, (Frame.stack.inj hr').symm⟩

/-- A temporary is reserved at the end of the frame. -/
theorem temporary_stack {f f' : StackFrame} {r r' : Routine} {slot : Slot} {size : Int}
    (hr : r.frame = .stack f) (h : temporary size r = .ok slot r') (hr' : r'.frame = .stack f') :
    slot = ⟨addExtent f.size size, size⟩ ∧ f' = { f with size := addExtent f.size size } := by
  rw [temporary, get_bind_ok, hr] at h
  simp only [bind_ok, set_ok, pure_ok] at h
  obtain ⟨_, _, rfl, rfl, rfl⟩ := h
  exact ⟨rfl, (Frame.stack.inj hr').symm⟩

/-- What a frame looks like after some requests. -/
structure Layout (params : List Param) (hidden : Bool) (f : StackFrame) (granted : List Grant) :
    Prop where
  size : f.size = ((grantedWords granted : Nat) : Int)
  placed : f.params = (StackFrame.ofParams params hidden).params
  result : f.result = (StackFrame.ofParams params hidden).result
  interrupt : f.interrupt = false
  sizes : ∀ g ∈ granted, 0 ≤ g.slot.size
  offsets : ∀ i g, granted[i]? = some g → 
    g.slot.offset = ((grantedWords (granted.drop i) : Nat) : Int)
  owners : ∀ g ∈ granted, ∀ id, g.owner = some id →
    id ∉ params.map (·.storage.id) ∧ f.locals.lookup id = some g.slot.offset

/-- Requests are granted one below the other, as long as the frame stays below 2^63 words. -/
theorem Laid.layout {params : List Param} {hidden : Bool} {f : StackFrame} {granted : List Grant}
    (h : Laid params hidden f granted) (hbound : grantedWords granted < 9223372036854775808) :
    Layout params hidden f granted := by
  induction h with
  | start => exact ⟨rfl, rfl, rfl, rfl, by simp, by simp, by simp⟩
  | @declared f f' granted r r' st size before hr other hsize request hr' ih =>
    rw [grantedWords_cons] at hbound
    have ih := ih (by omega)
    obtain ⟨hnew, rfl⟩ := declareLocal_stack hr request hr'
    have hgrow : addExtent f.size size = (size.toNat + grantedWords granted : Nat) := by
      rw [ih.size, addExtent_eq_add (by omega) (by simp only at hbound; omega)]
      omega
    refine ⟨hgrow, ih.placed, ih.result, ih.interrupt, ?_, fun i g hg => ?_, fun g hg id hid => ?_⟩
    · simpa using ⟨hsize, ih.sizes⟩
    · cases i with
      | zero =>
        obtain rfl : _ = g := by simpa using hg
        exact hgrow
      | succ i => exact ih.offsets i g (by simpa using hg)
    · rcases List.mem_cons.1 hg with rfl | hg
      · obtain rfl : st.id = id := Option.some.inj hid
        exact ⟨other, by simp⟩
      · obtain ⟨hout, hlookup⟩ := ih.owners g hg id hid
        have hne : id ≠ st.id := fun heq => by
          rw [heq, hnew] at hlookup
          cases hlookup
        exact ⟨hout, by rw [List.lookup_cons, beq_false_of_ne hne]; exact hlookup⟩
  | @reserved f f' granted r r' slot size before hr hsize request hr' ih =>
    rw [grantedWords_cons] at hbound
    have ih := ih (by omega)
    obtain ⟨rfl, rfl⟩ := temporary_stack hr request hr'
    have hgrow : addExtent f.size size = (size.toNat + grantedWords granted : Nat) := by
      rw [ih.size, addExtent_eq_add (by omega) (by simp only at hbound; omega)]
      omega
    refine ⟨hgrow, ih.placed, ih.result, ih.interrupt, ?_, fun i g hg => ?_, fun g hg id hid => ?_⟩
    · simpa using ⟨hsize, ih.sizes⟩
    · cases i with
      | zero =>
        obtain rfl : _ = g := by simpa using hg
        exact hgrow
      | succ i => exact ih.offsets i g (by simpa using hg)
    · rcases List.mem_cons.1 hg with rfl | hg
      · cases hid
      · exact ih.owners g hg id hid

/-- Every piece lies inside the frame. -/
theorem Layout.offset_le {params : List Param} {hidden : Bool} {f : StackFrame}
    {granted : List Grant} (h : Layout params hidden f granted) {g : Grant} (hg : g ∈ granted) :
    g.slot.offset.toNat ≤ grantedWords granted := by
  obtain ⟨i, hi, rfl⟩ := List.getElem_of_mem hg
  rw [h.offsets i _ (List.getElem?_eq_getElem hi), Int.toNat_natCast]
  conv_rhs => rw [← List.take_append_drop i granted]
  rw [grantedWords, grantedWords, Number.total_append]
  exact Nat.le_add_left _ _

/-! ## Words without a gap -/

/-- Blocks of words, given by their first address and their length, that lie one below the other
from `high` down to `low` without a gap. -/
def Tiles : Nat → List (Nat × Nat) → Nat → Prop
  | high, [], low => high = low
  | high, (a, n) :: rest, low => a + n = high ∧ Tiles a rest low

namespace Tiles

variable {high mid low : Nat} {front back : List (Nat × Nat)}

/-- Blocks below other blocks. -/
theorem append (h : Tiles high front mid) (h' : Tiles mid back low) :
    Tiles high (front ++ back) low := by
  induction front generalizing high with
  | nil => exact (show high = mid from h) ▸ h'
  | cons block front ih => exact ⟨h.1, ih h.2⟩

/-- Every block lies below the start. -/
theorem mem_le (h : Tiles high front low) : ∀ block ∈ front, block.1 + block.2 ≤ high := by
  induction front generalizing high with
  | nil => simp
  | cons block front ih =>
    have := h.1
    intro other hother
    rcases List.mem_cons.1 hother with rfl | hother
    · omega
    · have := ih h.2 other hother
      omega

/-- Blocks without a gap are disjoint. -/
theorem pairwise (h : Tiles high front low) :
    front.Pairwise fun upper lower => lower.1 + lower.2 ≤ upper.1 := by
  induction front generalizing high with
  | nil => exact .nil
  | cons block front ih => exact List.pairwise_cons.2 ⟨mem_le h.2, ih h.2⟩

end Tiles

/-! ## The parts of an activation -/

section Parts

variable (top : Nat) (params : List Param) (granted : List Grant) (saved : List Register)

/-- The first word of parameter `i` of a function that is entered with the stack pointer `top`. -/
def paramStart (i : Nat) : Nat := top + paramWords (params.drop (i + 1))

/-- The word that holds the address for the result. -/
def resultStart : Nat := top + paramWords params

/-- The first word of a local or a temporary. -/
def slotStart (slot : Slot) : Nat := top - 1 - slot.offset.toNat

/-- The word of saved register `i` below a frame of `n` words. -/
def savedStart (n i : Nat) : Nat := top - 2 - n - i

/-- The parameters, the first one uppermost. -/
def paramBlocks : List (Nat × Nat) :=
  params.mapIdx fun i p => (paramStart top params i, p.size.toNat)

/-- The locals and temporaries, the first one uppermost. -/
def grantedBlocks : List (Nat × Nat) :=
  granted.reverse.map fun g => (slotStart top g.slot, g.slot.size.toNat)

/-- The saved registers, the first one uppermost. -/
def savedBlocks : List (Nat × Nat) :=
  saved.mapIdx fun i _ => (savedStart top (grantedWords granted) i, 1)

/-- The words of an activation from top to bottom: the address for the result, the parameters, the
return address, locals and temporaries, the saved registers, and the saved frame pointer. -/
def activation (hidden : Bool) : List (Nat × Nat) :=
  (if hidden then [(resultStart top params, 1)] else []) ++ paramBlocks top params ++
    [(top - 1, 1)] ++ grantedBlocks top granted ++ savedBlocks top granted saved ++
    [(savedStart top (grantedWords granted) saved.length, 1)]

variable {top params granted saved}

/-- The parameters have no gap between them. -/
theorem tiles_paramBlocks : Tiles (resultStart top params) (paramBlocks top params) top := by
  induction params with
  | nil => exact Nat.add_zero top
  | cons p params ih =>
    rw [paramBlocks, List.mapIdx_cons]
    refine ⟨?_, ?_⟩
    · simp only [paramStart, resultStart, List.drop_succ_cons, List.drop_zero, paramWords_cons]
      omega
    · exact ih

/-- Locals and temporaries have no gap between them. -/
theorem tiles_grantedBlocks {params : List Param} {hidden : Bool} {f : StackFrame}
    (hlayout : Layout params hidden f granted) (htop : grantedWords granted + 1 ≤ top) :
    Tiles (top - 1) (grantedBlocks top granted) (top - 1 - grantedWords granted) := by
  have hoffsets := hlayout.offsets
  clear hlayout
  induction granted with
  | nil => exact rfl
  | cons g granted ih =>
    rw [grantedWords_cons] at htop ⊢
    have hold := ih (by omega) fun i g' hg' => hoffsets (i + 1) g' (by simpa using hg')
    have hoffset := hoffsets 0 g rfl
    rw [List.drop_zero, grantedWords_cons] at hoffset
    rw [grantedBlocks, List.reverse_cons, List.map_append]
    refine hold.append ⟨?_, ?_⟩
    · simp only [slotStart]
      omega
    · simp only [slotStart]
      show _ = _
      omega

/-- The saved registers have no gap between them. -/
theorem tiles_savedBlocks (n : Nat) (htop : n + saved.length + 1 ≤ top) :
    Tiles (top - 1 - n) (saved.mapIdx fun i _ => (savedStart top n i, 1))
      (top - 1 - n - saved.length) := by
  induction saved generalizing n with
  | nil => exact rfl
  | cons q saved ih =>
    rw [List.length_cons] at htop ⊢
    rw [List.mapIdx_cons]
    refine ⟨?_, ?_⟩
    · simp only [savedStart]
      omega
    · have hrest := ih (n + 1) (by omega)
      have hnext (i : Nat) : savedStart top n (i + 1) = savedStart top (n + 1) i := by
        simp only [savedStart]
        omega
      simp only [hnext]
      rw [show savedStart top n 0 = top - 1 - (n + 1) by simp only [savedStart]; omega]
      rwa [show top - 1 - n - (saved.length + 1) = top - 1 - (n + 1) - saved.length by omega]

/-- The parts of an activation that lies in memory are disjoint. -/
theorem pairwise_activation {hidden : Bool} {f : StackFrame}
    (hlayout : Layout params hidden f granted)
    (htop : grantedWords granted + saved.length + 2 ≤ top) :
    (activation top params granted saved hidden).Pairwise
      fun upper lower => lower.1 + lower.2 ≤ upper.1 := by
  have hresult : ∃ high, Tiles high (if hidden then [(resultStart top params, 1)] else [])
      (resultStart top params) := by
    cases hidden with
    | false => exact ⟨_, rfl⟩
    | true => exact ⟨_, rfl, rfl⟩
  obtain ⟨high, hresult⟩ := hresult
  have haddress : Tiles top [(top - 1, 1)] (top - 1) := ⟨by omega, rfl⟩
  have hlast : Tiles (top - 1 - grantedWords granted - saved.length)
      [(savedStart top (grantedWords granted) saved.length, 1)]
      (savedStart top (grantedWords granted) saved.length) :=
    ⟨by simp only [savedStart]; omega, rfl⟩
  exact (((((hresult.append tiles_paramBlocks).append haddress).append
    (tiles_grantedBlocks hlayout (by omega))).append (tiles_savedBlocks _ (by omega))).append
    hlast).pairwise

end Parts

/-! ## Addresses in an activation -/

/-- A state in the body of an activation whose body started in the state `t`: the frame pointer is
where the depth of the routine says, and still the same. -/
structure InBody (r : Routine) (t v : State) : Prop where
  slot : frameSlot r v = t.stack
  frame : v.word t.stack = t.word t.stack
  size : v.memory.size = t.memory.size

section Addresses

variable {image : Image} {handlers : Handlers} {params : List Param} {hidden : Bool}
  {f : StackFrame} {granted : List Grant} {r r' : Routine} {q : Register} {top : Nat} {t : State}

/-- What a state at the start of a body needs for addresses to be computed from the frame pointer. -/
structure Based (top : Nat) (params : List Param) (hidden : Bool) (t : State) : Prop where
  frame : t.word t.stack = UInt32.ofNat (top - 1)
  below : t.stack < top
  fits : top + paramWords params + (if hidden then 1 else 0) ≤ t.memory.size
  size : t.memory.size ≤ 4294967296

/-- A word above the frame pointer. -/
theorem above_frame {n : Nat} (h : 1 ≤ top) :
    UInt32.ofNat (top - 1) + UInt32.ofNat (1 + n) = UInt32.ofNat (top + n) := by
  rw [← UInt32.ofNat_add, show top - 1 + (1 + n) = top + n by omega]

/-- A word below the frame pointer. -/
theorem below_frame {n : Nat} (h : n ≤ top - 1) :
    UInt32.ofNat (top - 1) - UInt32.ofNat n = UInt32.ofNat (top - 1 - n) := by
  have hsum : UInt32.ofNat (top - 1 - n) + UInt32.ofNat n = UInt32.ofNat (top - 1) := by
    rw [← UInt32.ofNat_add, Nat.sub_add_cancel h]
  rw [← hsum, UInt32.add_sub_cancel]

/-- What is computed from the frame pointer is computed from the same one everywhere in a body. -/
theorem Loads.inBody {code : List Directive} {p p' : Pool} (word : Word → Word)
    (hbased : Based top params hidden t)
    (h : Loads image handlers code p p' q
      (fun s => frameSlot r s < s.memory.size ∧ s.memory.size ≤ 4294967296)
      fun s => word (s.word (frameSlot r s))) :
    Loads image handlers code p p' q (InBody r t) fun _ => word (UInt32.ofNat (top - 1)) := by
  intro a v hplaced hpc hone hbody
  have hbelow := hbased.below
  have hfits := hbased.fits
  obtain ⟨u, hvu, hupc, huq, hrest⟩ := h a v hplaced hpc hone
    ⟨by rw [hbody.slot, hbody.size]; omega, by rw [hbody.size]; exact hbased.size⟩
  refine ⟨u, hvu, hupc, ?_, hrest⟩
  simp only at huq
  rw [huq, hbody.slot, hbody.frame, hbased.frame]

/-- The address of a parameter, at every depth. -/
theorem frameAddress_param (hlayout : Layout params hidden f granted) (hr : r.frame = .stack f)
    (hsizes : ∀ p ∈ params, 0 ≤ p.size) (hids : (params.map (·.storage.id)).Nodup)
    (hbased : Based top params hidden t) {i : Nat} {p : Param} (hp : params[i]? = some p)
    (h : frameAddress p.storage r = .ok q r') :
    ∃ code, r'.code.toList = r.code.toList ++ code ∧
      Loads image handlers code r.pool r'.pool q (InBody r t) fun _ =>
        UInt32.ofNat (paramStart top params i) := by
  have hbelow := hbased.below
  have hfits := hbased.fits
  have hsize := hbased.size
  obtain ⟨hlookup, -, -⟩ := ofParams_spec hidden hsizes hids (by omega)
  simp only [frameAddress, get_bind_ok, hr, hlayout.placed, hlookup i p hp] at h
  obtain ⟨-, -, -, code, hr', hloads⟩ := aboveFrame_runs image handlers h
  refine ⟨code, by rw [hr']; simp, ?_⟩
  rw [paramStart, ← above_frame (by omega)]
  exact hloads.inBody (fun w => w + _) hbased

/-- The address of a local, at every depth. -/
theorem frameAddress_local (hlayout : Layout params hidden f granted) (hr : r.frame = .stack f)
    (hsizes : ∀ p ∈ params, 0 ≤ p.size) (hids : (params.map (·.storage.id)).Nodup)
    (hbased : Based top params hidden t) (hgranted : grantedWords granted + 1 ≤ top) {st : Storage}
    {slot : Slot} (hslot : ⟨some st.id, slot⟩ ∈ granted) (h : frameAddress st r = .ok q r') :
    ∃ code, r'.code.toList = r.code.toList ++ code ∧
      Loads image handlers code r.pool r'.pool q (InBody r t) fun _ =>
        UInt32.ofNat (slotStart top slot) := by
  have hfits := hbased.fits
  have hsize := hbased.size
  obtain ⟨-, hnone, -⟩ := ofParams_spec hidden hsizes hids (by omega)
  obtain ⟨hout, hlocal⟩ := hlayout.owners _ hslot st.id rfl
  simp only [frameAddress, get_bind_ok, hr, hlayout.placed, hnone st.id hout, hlocal] at h
  obtain ⟨-, -, -, code, hr', hloads⟩ := belowFrame_runs image handlers h
  refine ⟨code, by rw [hr']; simp, ?_⟩
  rw [slotStart, ← below_frame (by have := hlayout.offset_le hslot; simp only at this; omega)]
  exact hloads.inBody (fun w => w - _) hbased

/-- The address of a temporary, at every depth. -/
theorem slotAddress_temporary (hlayout : Layout params hidden f granted) (hr : r.frame = .stack f)
    (hbased : Based top params hidden t) (hgranted : grantedWords granted + 1 ≤ top) {owner : Option Nat}
    {slot : Slot} (hslot : ⟨owner, slot⟩ ∈ granted) (h : slotAddress slot r = .ok q r') :
    ∃ code, r'.code.toList = r.code.toList ++ code ∧
      Loads image handlers code r.pool r'.pool q (InBody r t) fun _ =>
        UInt32.ofNat (slotStart top slot) := by
  simp only [slotAddress, get_bind_ok, hr] at h
  obtain ⟨-, -, -, code, hr', hloads⟩ := belowFrame_runs image handlers h
  refine ⟨code, by rw [hr']; simp, ?_⟩
  rw [slotStart, ← below_frame (by have := hlayout.offset_le hslot; simp only at this; omega)]
  exact hloads.inBody (fun w => w - _) hbased

/-- The address for the result is read where it was passed, at every depth. -/
theorem resultAddress_reads (hlayout : Layout params hidden f granted) (hr : r.frame = .stack f)
    (hsizes : ∀ p ∈ params, 0 ≤ p.size) (hids : (params.map (·.storage.id)).Nodup)
    (hbased : Based top params hidden t) (h : resultAddress r = .ok q r') :
    hidden = true ∧ ∃ code, r'.code.toList = r.code.toList ++ code ∧
      Loads image handlers code r.pool r'.pool q (InBody r t) fun v =>
        v.word (resultStart top params) := by
  have hbelow := hbased.below
  have hfits := hbased.fits
  have hsize := hbased.size
  obtain ⟨-, -, hresult⟩ := ofParams_spec hidden hsizes hids (by omega)
  simp only [resultAddress, get_bind_ok, hr, guard_ok, hlayout.result, hresult] at h
  obtain ⟨hpassed, h⟩ := h
  cases hidden with
  | false => exact absurd (Int.negSucc_lt_zero 0) hpassed
  | true =>
    refine ⟨rfl, ?_⟩
    rw [if_pos rfl] at hfits
    simp only [↓reduceIte, bind_ok, emit_ok, pure_ok] at h
    obtain ⟨x, r₁, habove, _, _, ⟨-, rfl⟩, rfl, rfl⟩ := h
    obtain ⟨htakes, -, -, code, hr₁, hloads⟩ := aboveFrame_runs image handlers habove
    have haddress := hloads.inBody (fun w => w + _) hbased
    rw [Int.toNat_natCast, above_frame (by omega)] at haddress
    refine ⟨code ++ [ins .load [x, x]], by rw [hr₁]; simp, fun a v hplaced hpc hone hbody => ?_⟩
    obtain ⟨hfront, hload, -⟩ := Machine.placed_append.1 hplaced
    obtain ⟨u, hvu, hupc, hux, hureg, humemory, huint⟩ := haddress a v hfront hpc hone hbody
    have hnat : (u.reg x).toNat = resultStart top params := by
      rw [hux, UInt32.toNat_ofNat_of_lt' (by rw [UInt32.size]; omega)]
      rfl
    have hrun := Machine.reaches_load handlers hload hupc
      (by rw [hnat, humemory, hbody.size]; exact hfits) htakes.writable htakes.writable.lt
      (hvu.one hone)
    refine ⟨_, hvu.trans hrun, ?_, ?_, fun y hy => ?_, humemory, huint⟩
    · simp only [State.assign_pc, Machine.totalSize_append, Machine.totalSize_cons,
        Machine.size_instruction, Machine.totalSize_nil, Nat.add_assoc]
    · rw [State.reg_assign_self _ _ _ _ htakes.writable.lt, hnat, State.word, humemory]
      rfl
    · rw [State.reg_assign_of_ne _ _ _ _ _ (hy.ne htakes.new htakes.taken), hureg y hy]

/-- The addresses that a body computes in a state of building: those of the parameters, of the
address for the result, and of the locals and temporaries requested so far. -/
structure Addresses (image : Image) (handlers : Handlers) (params : List Param) (hidden : Bool)
    (granted : List Grant) (top : Nat) (t : State) (r : Routine) : Prop where
  param : ∀ i p q r', params[i]? = some p → frameAddress p.storage r = .ok q r' →
    ∃ code, r'.code.toList = r.code.toList ++ code ∧
      Loads image handlers code r.pool r'.pool q (InBody r t) fun _ =>
        UInt32.ofNat (paramStart top params i)
  result : ∀ q r', resultAddress r = .ok q r' → hidden = true ∧
    ∃ code, r'.code.toList = r.code.toList ++ code ∧
      Loads image handlers code r.pool r'.pool q (InBody r t) fun v =>
        v.word (resultStart top params)
  declared : ∀ st slot q r', ⟨some st.id, slot⟩ ∈ granted → frameAddress st r = .ok q r' →
    ∃ code, r'.code.toList = r.code.toList ++ code ∧
      Loads image handlers code r.pool r'.pool q (InBody r t) fun _ =>
        UInt32.ofNat (slotStart top slot)
  reserved : ∀ slot q r', ⟨none, slot⟩ ∈ granted → slotAddress slot r = .ok q r' →
    ∃ code, r'.code.toList = r.code.toList ++ code ∧
      Loads image handlers code r.pool r'.pool q (InBody r t) fun _ =>
        UInt32.ofNat (slotStart top slot)

/-- Addresses are computed from the frame pointer alike in every state of building. -/
theorem addresses_of_layout (hlayout : Layout params hidden f granted) (hr : r.frame = .stack f)
    (hsizes : ∀ p ∈ params, 0 ≤ p.size) (hids : (params.map (·.storage.id)).Nodup)
    (hbased : Based top params hidden t) (hgranted : grantedWords granted + 1 ≤ top) :
    Addresses image handlers params hidden granted top t r where
  param _ _ _ _ hp h := frameAddress_param hlayout hr hsizes hids hbased hp h
  result _ _ h := resultAddress_reads hlayout hr hsizes hids hbased h
  declared _ _ _ _ hslot h := frameAddress_local hlayout hr hsizes hids hbased hgranted hslot h
  reserved _ _ _ hslot h := slotAddress_temporary hlayout hr hbased hgranted hslot h

end Addresses

/-! ## Caller and callee -/

/-- Two lists with the same measures have the same total. -/
theorem argumentWords_eq {arguments : List Argument} {params : List Param}
    (h : arguments.map Argument.words = params.map (·.size.toNat)) :
    argumentWords arguments = paramWords params := by
  induction arguments generalizing params with
  | nil =>
    obtain rfl : params = [] := by simpa using h.symm
    rfl
  | cons arg arguments ih =>
    cases params with
    | nil => cases h
    | cons p params =>
      simp only [List.map_cons, List.cons.injEq] at h
      rw [paramWords_cons, ← ih h.2, ← h.1]
      rfl

/-- Caller and callee agree on the layout of an activation. Take a function with any parameters,
whose body makes any requests for locals and temporaries, and a call of it whose arguments have the
sizes of the parameters, such that the whole activation lies in memory. The call enters the function
with the words of argument `i` exactly where the body computes the address of parameter `i`, at
every depth and in every state of building, and with the address for the result where the body reads
it. The parts of the activation are disjoint. -/
theorem frame_layout_agreement {params : List Param} {hidden : Bool} {f : StackFrame}
    {granted : List Grant} {g g' : Routine} {body : List Directive} {callee out : Register}
    {arguments : List Argument} {result : Result} {r r' : Routine} {image : Image}
    (handlers : Handlers) {code : List Directive} {a b : Nat} {s : State}
    (hids : (params.map (·.storage.id)).Nodup) (hsizes : ∀ p ∈ params, 0 ≤ p.size)
    (hlaid : Laid params hidden f granted) (hframe : g.frame = .stack f)
    (hfinish : finish g = .ok body g') (hbody : Placed image b body)
    (hcallee : image.label? g.name = some (s.reg callee))
    (hmatch : arguments.map Argument.words = params.map (·.size.toNat))
    (hresult : result.isHidden = hidden) (hvalid : r.pool.Valid) (hname : symbol r.name = r.name)
    (hdepth : 0 ≤ r.depth) (hbalanced : ∀ arg ∈ arguments, arg.IsBalanced)
    (hcall : call callee arguments result r = .ok out r')
    (hcode : r'.code.toList = r.code.toList ++ code) (hp : Placed image a code)
    (hs : s.pc = UInt32.ofNat a) (hone : s.reg .one = 1) (hframed : Framed r s)
    (hhigh : s.stack + r.depth.toNat ≤ s.memory.size)
    (hlow : pushedWords r.pool callee arguments result +
      (grantedWords granted + g.pool.calleeSaveUsed.length + 2) ≤ s.stack)
    (harguments : ∀ slot r₁, passResult result (r.saving callee) = .ok slot r₁ →
      EvaluatesFrom image handlers s r.depth
        (s.stack - pushedWords r.pool callee arguments result) arguments r₁) :
    ∃ m t, Reaches image handlers s m ∧ m.pc = s.reg callee ∧ Reaches image handlers m t ∧
      t.pc = UInt32.ofNat (b + totalSize (entryCode g.pool.calleeSaveUsed (grantedWords granted))) ∧
      (∀ i p arg, params[i]? = some p → arguments[i]? = some arg →
        ∃ q u, arg.EndsIn image handlers s q u ∧
          ∀ k < arg.words, m.word (paramStart m.stack params i + k) = arg.delivers q u k) ∧
      (hidden = true → ∃ slot r₁, temporary result.size r = .ok slot r₁ ∧
        m.word (resultStart m.stack params) = slotWord image r slot s) ∧
      Linked g.pool.calleeSaveUsed (grantedWords granted) m t ∧
      (∀ x, m.stack ≤ x → t.word x = m.word x) ∧
      (∀ r₁ f₁ granted₁, Laid params hidden f₁ granted₁ → granted₁ <:+ granted →
        r₁.frame = .stack f₁ → Addresses image handlers params hidden granted₁ m.stack t r₁) ∧
      (activation m.stack params granted g.pool.calleeSaveUsed hidden).Pairwise
        fun upper lower => lower.1 + lower.2 ≤ upper.1 := by
  have hbound : s.stack < 4294967296 := (s.reg .sp).toNat_lt
  have hlayout := hlaid.layout (by omega)
  have hwords : argumentWords arguments = paramWords params := argumentWords_eq hmatch
  have hpushed : result.words + paramWords params ≤ pushedWords r.pool callee arguments result := by
    rw [pushedWords, hwords]
    omega
  have hsize := hframed.2
  have hwrap : Machine.wrap r.depth = r.depth := Machine.wrap_of_bounds (by omega) (by omega)
  obtain ⟨slot, r₁, code', hpassed, hexchanges, -, hsome, hruns⟩ :=
    call_runs image handlers ⟨hvalid, hwrap, hname⟩ hbalanced hcall
  obtain rfl : code = code' := List.append_cancel_left (hcode.symm.trans hexchanges.code)
  obtain ⟨m, hsm, hmpc, hmstack, hdelivered, hslot, -⟩ :=
    hruns a s hp hs hone ⟨hframed, hdepth, hhigh, by omega⟩ (harguments slot r₁ hpassed)
  -- The entry of the callee.
  obtain ⟨-, rfl⟩ := finish_ok hframe hlayout.interrupt hfinish
  rw [hlayout.size, Int.toNat_natCast] at hbody
  simp only [Machine.placed_cons, Machine.placed_append, Machine.size_label, Nat.add_zero] at hbody
  obtain ⟨hlabel, hentry, -⟩ := hbody
  have hmpc' : m.pc = UInt32.ofNat b := by
    rw [hmpc]
    exact Option.some.inj (hcallee.symm.trans hlabel)
  obtain ⟨t, hmt, htpc, ht⟩ := reaches_entry handlers hentry hmpc'
    (fun q hq => (mem_calleeSaveUsed.1 hq).1) (by omega) (by omega)
    (by rw [hsm.size]; omega) (hsm.one hone)
  have htstack := ht.stack
  have hbased : Based m.stack params hidden t := by
    refine ⟨ht.frame, by omega, ?_, by rw [hmt.size, hsm.size]; exact hframed.2⟩
    have hone : (if hidden then 1 else 0) = result.words := by rw [Result.words, hresult]
    rw [hmt.size, hsm.size, hone]
    omega
  refine ⟨m, t, hsm, hmpc, hmt, htpc, fun i p arg hp harg => ?_, fun hhidden => ?_, ht.toLinked,
    ht.above, fun r₁ f₁ granted₁ hlaid₁ hsuffix hr₁ => ?_, pairwise_activation hlayout (by omega)⟩
  · obtain ⟨q, u, hends, hk⟩ := hdelivered i arg harg
    have hdrop : argumentWords (arguments.drop (i + 1)) = paramWords (params.drop (i + 1)) :=
      argumentWords_eq (by rw [List.map_drop, List.map_drop, hmatch])
    rw [hdrop] at hk
    exact ⟨q, u, hends, hk⟩
  · obtain ⟨sl, r₂, hsl, htemporary⟩ := hsome (hresult.trans hhidden)
    rw [resultStart, ← hwords]
    exact ⟨sl, r₂, htemporary, hslot sl hsl⟩
  · have hle : grantedWords granted₁ ≤ grantedWords granted := by
      obtain ⟨later, rfl⟩ := hsuffix
      rw [grantedWords, grantedWords, Number.total_append]
      exact Nat.le_add_left _ _
    exact addresses_of_layout (hlaid₁.layout (by omega)) hr₁ hsizes hids hbased (by omega)

/-! ## A call of a function with parameters of both kinds -/

/-- A word and an object of ten words. -/
def mixedParams : List Param :=
  [⟨{ id := 1, name := "a", type := default, kind := .parameter, location := none }, 1⟩,
    ⟨{ id := 2, name := "b", type := default, kind := .parameter, location := none }, 10⟩]

/-- A local of the callee. -/
def mixedLocal : Storage :=
  { id := 3, name := "x", type := default, kind := .automatic, location := none }

/-- The local and a temporary of three words. -/
def mixedGranted : List Grant := [⟨none, ⟨5, 3⟩⟩, ⟨some 3, ⟨2, 2⟩⟩]

/-- The frame of the callee behind its requests. -/
def mixedFrame : StackFrame :=
  { StackFrame.ofParams mixedParams true with size := 5, locals := [(3, 2)] }

/-- The callee, with an empty body. -/
def mixedFunction : Routine := (Routine.function "g" mixedParams true).withFrame (.stack mixedFrame)

/-- The requests lead to the frame of the callee. -/
theorem laid_mixed : Laid mixedParams true mixedFrame mixedGranted :=
  have hlocal : Laid mixedParams true
      { StackFrame.ofParams mixedParams true with size := 2, locals := [(3, 2)] }
      [⟨some 3, ⟨2, 2⟩⟩] :=
    have hdeclared : declareLocal mixedLocal 2 (Routine.function "g" mixedParams true) = .ok _ _ := rfl
    .declared .start rfl (by decide) (by decide) hdeclared rfl
  have hreserved : temporary 3 ((Routine.function "g" mixedParams true).withFrame (.stack
      { StackFrame.ofParams mixedParams true with size := 2, locals := [(3, 2)] })) = .ok _ _ := rfl
  .reserved hlocal rfl (by decide) hreserved rfl

/-- The callee is completed, and the call assembles behind it and the routine that an argument calls. -/
theorem layout_assembles :
    ∃ body g' out r' image, finish mixedFunction = .ok body g' ∧ totalSize body = 14 ∧
      call (.ofNat 2) mixedArguments ⟨2, false⟩ mixedCaller = .ok out r' ∧
      Image.assemble (body ++ (mixedHelper ++ r'.code.toList)) 128 = .ok image := by
  have hok : (match finish mixedFunction, call (.ofNat 2) mixedArguments ⟨2, false⟩ mixedCaller with
      | .ok body _, .ok _ r' => decide (totalSize body = 14) &&
        (Image.assemble (body ++ (mixedHelper ++ r'.code.toList)) 128).toOption.isSome
      | _, _ => false) = true := by decide +kernel
  split at hok
  · next body g' out r' hfinish hcall =>
    simp only [Bool.and_eq_true, decide_eq_true_eq] at hok
    cases himage : Image.assemble (body ++ (mixedHelper ++ r'.code.toList)) 128 with
    | error e =>
      rw [himage] at hok
      cases hok.2
    | ok image => exact ⟨body, g', out, r', image, hfinish, hok.1, hcall, himage⟩
  · cases hok

/-- The call enters the callee with the word of its first argument, which another call gives, where the
callee looks for its first parameter, above the ten words of the second. -/
theorem frame_layout_agreement_mixed :
    ∃ body g' out r' image m, finish mixedFunction = .ok body g' ∧
      call (.ofNat 2) mixedArguments ⟨2, false⟩ mixedCaller = .ok out r' ∧
      Image.assemble (body ++ (mixedHelper ++ r'.code.toList)) 128 = .ok image ∧
      Reaches image [] (mixedStart image 15) m ∧ m.pc = 0 ∧
      (∃ q u, (callArgument "h" [constantArgument 1 true 7] .word).EndsIn image []
          (mixedStart image 15) q u ∧ m.word (m.stack + 10) = u.reg q) ∧
      (activation m.stack mixedParams mixedGranted [] true).Pairwise
        fun upper lower => lower.1 + lower.2 ≤ upper.1 := by
  obtain ⟨body, g', out, r', image, hfinish, hbody, hcall, himage⟩ := layout_assembles
  obtain ⟨-, hle, -⟩ := Machine.assemble_ok himage
  obtain ⟨hcallee, hp⟩ := Machine.placed_append.1 (Machine.placed_of_assemble himage (by omega))
  rw [hbody] at hp
  obtain ⟨hphelper, hp⟩ := Machine.placed_append.1 hp
  have hsize : (mixedStart image 15).memory.size = 128 := Machine.size_memory_of_assemble himage
  have hone : (mixedStart image 15).reg .one = 1 := rfl
  have hstack : (mixedStart image 15).stack = 80 := rfl
  have hpushed : pushedWords mixedCaller.pool (.ofNat 2) mixedArguments ⟨2, false⟩ = 13 := by
    decide
  have hlabel : image.label? mixedFunction.name = some ((mixedStart image 15).reg (.ofNat 2)) := by
    rw [(finish_ok (r := mixedFunction) rfl rfl hfinish).2] at hcallee
    exact hcallee.1
  obtain ⟨m, t, hrun, hpc, -, -, hdelivered, -, -, -, -, hactivation⟩ :=
    frame_layout_agreement [] (s := mixedStart image 15) (r := mixedCaller) (g := mixedFunction)
      (by decide) (by decide) laid_mixed rfl hfinish hcallee hlabel
      (by decide) rfl ⟨by decide, by decide, by decide⟩ (by decide) (by decide) isBalanced_mixed hcall
      rfl hp rfl hone ⟨fun _ => by rw [hsize, frameSlot, hstack]; decide, by rw [hsize]; decide⟩
      (by rw [hsize, hstack]; decide) (by rw [hpushed, hstack]; decide)
      (fun slot r₁ hslot => evaluatesFrom_mixed hphelper hsize hone (by rw [hstack]; decide)
        (by rw [hpushed, hstack]; decide) (ready_mixed hslot))
  obtain ⟨q, u, hends, hword⟩ := hdelivered 0 _ _ rfl rfl
  exact ⟨body, g', out, r', image, m, hfinish, hcall, himage, hrun, hpc,
    ⟨q, u, hends, hword 0 (by decide)⟩, hactivation⟩

/-- A frame that does not fit below the stack pointer wraps around: a function with a parameter of one
word and a temporary of 4294967294 words, entered with the stack pointer at 40, saves its frame
pointer in the word of the parameter. -/
theorem wide_frame_overlaps_parameter :
    ∃ code r' image s t,
      (temporary 4294967294 >>= fun _ => finish)
        (Routine.function "f" [mixedParams.head (by decide)] false) = .ok code r' ∧
      Image.assemble code 64 = .ok image ∧ s = (Machine.initial image 0).assign .sp 40 0 ∧
      image.label? "f" = some s.pc ∧ Reaches image [] s t ∧ image.label? "f$exit" = some t.pc ∧
      t.stack = paramStart s.stack [mixedParams.head (by decide)] 0 ∧
      t.word (paramStart s.stack [mixedParams.head (by decide)] 0) ≠
        s.word (paramStart s.stack [mixedParams.head (by decide)] 0) := by
  obtain ⟨code, r', image, t, hcode, himage, hrun, hP⟩ := @reaches_of_laidOut
    (temporary 4294967294 >>= fun _ => finish) (.function "f" [mixedParams.head (by decide)] false) [] 64 7 []
    (fun image => (Machine.initial image 0).assign .sp 40 0)
    (fun image t =>
      let s := (Machine.initial image 0).assign .sp 40 0
      let param := paramStart s.stack [mixedParams.head (by decide)] 0
      decide (image.label? "f" = some s.pc ∧ image.label? "f$exit" = some t.pc ∧ t.stack = param ∧
        t.word param ≠ s.word param)) (by decide +kernel)
  obtain ⟨hstart, hexit, hstack, hword⟩ := of_decide_eq_true hP
  exact ⟨code, r', image, _, t, hcode, himage, rfl, hstart, hrun, hexit, hstack, hword⟩

end Qll.Codegen
