import Mathlib.Data.List.DropRight
import Mathlib.Data.List.Rotate
import Qll.Trace.Recorder

/-!
# Rings are bounded queues

A ring gives back its items in the order in which they came. A new item goes to the end, and where
every place was written the oldest one goes. So after any number of turns a ring holds the last items
that came, as many as it has room for, and a recorder holds the last events that its level admits.
-/

namespace Qll.Trace

variable {α : Type}

/-! ## Rings -/

namespace Ring

/-- A ring has room, as many places as that, and the next item comes to one of them. -/
structure Valid (r : Ring α) : Prop where
  room : 0 < r.capacity
  size_eq : r.slots.size = r.capacity
  head_lt : r.head < r.capacity

/-- A new ring is valid. -/
theorem valid_ofCapacity [Inhabited α] (n : Int) : (ofCapacity n : Ring α).Valid := by
  have hroom : 0 < (ofCapacity n : Ring α).capacity := by
    simp only [ofCapacity, defaultCapacity]
    split <;> omega
  exact ⟨hroom, Array.size_replicate, hroom⟩

variable {r : Ring α}

/-- The capacity stays when something is pushed. -/
@[simp] theorem capacity_push (r : Ring α) (a : α) : (r.push a).capacity = r.capacity := rfl

/-- A pushed element keeps a ring valid. -/
theorem Valid.push (hr : r.Valid) (a : α) : (r.push a).Valid :=
  ⟨hr.room, Array.size_setIfInBounds.trans hr.size_eq, Nat.mod_lt _ hr.room⟩

/-- A valid ring has as many slots as it has capacity. -/
theorem length_slots (hr : r.Valid) : r.slots.toList.length = r.capacity := hr.size_eq

/-- Once every place was written, the items are read from the next place on, all around. -/
theorem toList_of_full (hr : r.Valid) (h : r.full = true) : r.toList = r.slots.toList.rotate r.head := by
  rw [toList, if_pos h, List.rotate_eq_drop_append_take (length_slots hr ▸ hr.head_lt.le)]

/-- Until a ring is full, its elements are in the slots before its head. -/
theorem toList_of_not_full (h : ¬ r.full = true) : r.toList = r.slots.toList.take r.head := if_neg h

/-- A full ring holds as many elements as it has capacity, another one as many as its head says. -/
theorem length_toList (hr : r.Valid) :
    r.toList.length = if r.full = true then r.capacity else r.head := by
  split
  · next h => rw [toList_of_full hr h, List.length_rotate, length_slots hr]
  · next h =>
    rw [toList_of_not_full h, List.length_take, length_slots hr, Nat.min_eq_left hr.head_lt.le]

/-- The items of a ring around the place that is written next. -/
theorem exists_slots (hr : r.Valid) : ∃ before old after,
    r.slots.toList = before ++ old :: after ∧ before.length = r.head ∧
      before.length + 1 + after.length = r.capacity := by
  have hhead : r.head < r.slots.toList.length := length_slots hr ▸ hr.head_lt
  have hbefore : (r.slots.toList.take r.head).length = r.head := by
    rw [List.length_take, Nat.min_eq_left hhead.le]
  refine ⟨r.slots.toList.take r.head, r.slots.toList[r.head], r.slots.toList.drop (r.head + 1), ?_,
    hbefore, ?_⟩
  · rw [← List.drop_eq_getElem_cons hhead, List.take_append_drop]
  · have hlength := length_slots hr
    rw [hbefore, List.length_drop]
    omega

/-- A pushed element replaces the one at the head. -/
theorem toList_slots_push {before after : List α} {old : α}
    (hslots : r.slots.toList = before ++ old :: after) (hbefore : before.length = r.head) (a : α) :
    (r.push a).slots.toList = before ++ [a] ++ after := by
  have hset : (r.push a).slots.toList = r.slots.toList.set r.head a := Array.toList_setIfInBounds
  rw [hset, hslots, ← hbefore, List.set_append_right _ _ (Nat.le_refl _), Nat.sub_self,
    List.set_cons_zero, List.append_cons]

/-- While a place is left that was not written, the items stay, and the new one comes after them. -/
theorem toList_push_of_not_full (hr : r.Valid) (h : ¬ r.full = true) (a : α) :
    (r.push a).toList = r.toList ++ [a] := by
  obtain ⟨before, old, after, hslots, hbefore, hsize⟩ := exists_slots hr
  have hpush := toList_slots_push hslots hbefore a
  have hitems : r.toList = before := by
    rw [toList_of_not_full h, hslots, ← hbefore, List.take_left]
  by_cases hlast : r.head + 1 = r.capacity
  · -- the last place is written, and the next one is the first one again
    have hafter : after = [] := List.length_eq_zero_iff.1 (by omega)
    have hhead : (r.push a).head = 0 := by simp [push, hlast]
    have hfull : (r.push a).full = true := by simp [push, hlast]
    rw [toList_of_full (hr.push a) hfull, hhead, List.rotate_zero, hpush, hafter, hitems,
      List.append_nil]
  · have hlt : r.head + 1 < r.capacity := by
      have := hr.head_lt
      omega
    have hhead : (r.push a).head = (before ++ [a]).length := by
      rw [List.length_append, List.length_singleton, hbefore]
      exact Nat.mod_eq_of_lt hlt
    have hfull : ¬ (r.push a).full = true := by simp [push, h, Nat.mod_eq_of_lt hlt]
    rw [toList_of_not_full hfull, hhead, hpush, hitems, List.take_left]

/-- In a full ring the oldest item goes, and the new one comes after the others. -/
theorem toList_push_of_full (hr : r.Valid) (h : r.full = true) (a : α) :
    (r.push a).toList = r.toList.tail ++ [a] := by
  obtain ⟨before, old, after, hslots, hbefore, -⟩ := exists_slots hr
  have hpush := toList_slots_push hslots hbefore a
  have hfull : (r.push a).full = true := by simp [push, h]
  -- turning the places by their number changes nothing, so the first place is a place like any other
  have hafter : (r.push a).toList = after ++ (before ++ [a]) := by
    have hturn : (r.push a).head = (before ++ [a]).length % (r.push a).slots.toList.length := by
      rw [length_slots (hr.push a), List.length_append, List.length_singleton, hbefore]
      rfl
    rw [toList_of_full (hr.push a) hfull, hturn, List.rotate_mod, hpush, List.rotate_append_length_eq]
  have hitems : r.toList = old :: after ++ before := by
    rw [toList_of_full hr h, hslots, ← hbefore, List.rotate_append_length_eq]
  rw [hafter, hitems, List.cons_append, List.tail_cons, List.append_assoc]

/-- A new item goes to the end, and the oldest one goes where there is no room for both. -/
theorem toList_push (hr : r.Valid) (a : α) : (r.push a).toList = (r.toList ++ [a]).rtake r.capacity := by
  have hlength := length_toList hr
  rw [List.rtake, List.length_append, List.length_singleton]
  by_cases h : r.full = true
  · rw [if_pos h] at hlength
    have hne : r.toList ≠ [] := by
      rw [← List.length_pos_iff, hlength]
      exact hr.room
    rw [toList_push_of_full hr h, hlength, Nat.add_sub_cancel_left, List.drop_one,
      List.tail_append_of_ne_nil hne]
  · rw [if_neg h] at hlength
    rw [toList_push_of_not_full hr h, hlength, Nat.sub_eq_zero_of_le hr.head_lt, List.drop_zero]

/-- What is left of a queue does not depend on what had to go before. -/
theorem rtake_rtake_append (l l' : List α) (n : Nat) : (l.rtake n ++ l').rtake n = (l ++ l').rtake n := by
  simp only [List.rtake, List.length_append, List.length_drop]
  by_cases h : l.length ≤ n
  · simp [Nat.sub_eq_zero_of_le h]
  · have hleft : l.length - (l.length - n) + l'.length - n = l'.length := by omega
    rw [hleft, List.drop_append, List.drop_append, List.drop_drop, List.length_drop]
    congr 2 <;> omega

/-- Items come one after another. -/
def pushAll (r : Ring α) (items : List α) : Ring α := items.foldl push r

/-- After any items the last ones are there, as many as there is room for. -/
theorem toList_pushAll (hr : r.Valid) (items : List α) :
    (r.pushAll items).toList = (r.toList ++ items).rtake r.capacity := by
  induction items generalizing r with
  | nil =>
    have hfits : r.toList.length - r.capacity = 0 := by
      rw [length_toList hr]
      split
      · exact Nat.sub_self _
      · exact Nat.sub_eq_zero_of_le hr.head_lt.le
    simp [pushAll, List.rtake, hfits]
  | cons a items ih =>
    change ((r.push a).pushAll items).toList = _
    rw [ih (hr.push a), toList_push hr, capacity_push, rtake_rtake_append, List.append_assoc,
      List.singleton_append]

end Ring

/-! ## Recorders -/

namespace Recorder

/-- The events of a sequence that a level admits. -/
def admitted (level : Level) (events : List Event) : List Event :=
  events.filter fun e => level.admits e.scope

/-- The level stays when an event is emitted. -/
@[simp] theorem level_emit (r : Recorder) (e : Event) : (r.emit e).level = r.level := by
  unfold emit
  split <;> rfl

/-- Emitting an event pushes it, if the level admits it. -/
theorem ring_emit (r : Recorder) (e : Event) :
    (r.emit e).ring = r.ring.pushAll (admitted r.level [e]) := by
  unfold emit
  split
  · next h => simp [admitted, h, Ring.pushAll]
  · next h => simp [admitted, h, Ring.pushAll]

/-- A recorder keeps the events that its level admits. -/
theorem ring_foldl_emit (r : Recorder) (events : List Event) :
    (events.foldl emit r).ring = r.ring.pushAll (admitted r.level events) := by
  induction events generalizing r with
  | nil => rfl
  | cons e events ih =>
    rw [List.foldl_cons, ih, level_emit, ring_emit, Ring.pushAll, Ring.pushAll, ← List.foldl_append,
      ← Ring.pushAll, admitted, admitted, ← List.filter_append, List.singleton_append, admitted]

/-- The events that are kept are the last ones that the level admits, oldest first: as many as the ring has
room for, where a size that is not positive stands for 4096. -/
theorem snapshot_emitted (capacity : Int) (level : Level) (format : Format) (path : String)
    (events : List Event) :
    let room := if capacity ≤ 0 then 4096 else capacity.toNat
    let passed := events.filter fun e => level.admits e.scope
    let kept := (events.foldl emit (create level format path capacity)).snapshot
    kept <:+ passed ∧ kept.length = min room passed.length := by
  intro room passed kept
  have hkept : kept = passed.rtake room := by
    have hring : kept = ((Ring.ofCapacity capacity).pushAll passed).toList :=
      congrArg Ring.toList (ring_foldl_emit _ events)
    rw [hring, Ring.toList_pushAll (Ring.valid_ofCapacity capacity)]
    rfl
  rw [hkept]
  refine ⟨List.drop_suffix _ _, ?_⟩
  rw [List.rtake, List.length_drop]
  omega

/-- A ring for three events keeps the last three of five. -/
example :
    let event (name : String) : Event := { kind := .point, scope := .pass, name }
    let events := ["a", "b", "c", "d", "e"].map event
    (events.foldl emit (create .debug .text "" 3)).snapshot = ["c", "d", "e"].map event := by decide

end Recorder

end Qll.Trace
