import Qll.Codegen.Finish
import Qll.Proofs.Computation
import Qll.Proofs.Machine.Stack

/-!
# Steps of building a routine

What each step of code generation leaves behind when it does not fault: the directives it appends,
and how it changes registers, depth and labels. Code is only ever appended, so a routine is
described by the code it had and the code that was added.
-/

namespace Qll.Codegen

open Assembly (Directive Value)
open Machine (Register Opcode Word addExtent ins pushCode popCode)
open Qll.Computation

/-! ## Changes of a routine

Each step changes a few parts of a routine. The changes are named, and a chain of them is brought
into one order: code first, then registers, labels and depth. -/

namespace Routine

/-- The routine with more code. -/
def plus (r : Routine) (code : List Directive) : Routine := { r with code := r.code ++ code }

/-- The routine with other registers in use. -/
def withPool (r : Routine) (pool : Pool) : Routine := { r with pool }

/-- The routine with another number of labels. -/
def withLabels (r : Routine) (labels : Nat) : Routine := { r with labels }

/-- The routine at another depth. -/
def withDepth (r : Routine) (depth : Int) : Routine := { r with depth }

/-- The routine with another frame. -/
def withFrame (r : Routine) (frame : Frame) : Routine := { r with frame }

/-- The routine, known to call another one. -/
def calling (r : Routine) : Routine := { r with calls := true }

variable (r : Routine) (code more : List Directive) (p p' : Pool) (n n' : Nat) (d d' : Int)
  (frame : Frame)

/-! ### Fields

A change to one field of a routine leaves the others; each of these is seen by `simp`. -/

@[simp] theorem plus_code : (r.plus code).code.toList = r.code.toList ++ code := by simp [plus]
@[simp] theorem plus_pool : (r.plus code).pool = r.pool := rfl
@[simp] theorem plus_depth : (r.plus code).depth = r.depth := rfl
@[simp] theorem plus_name : (r.plus code).name = r.name := rfl
@[simp] theorem plus_frame : (r.plus code).frame = r.frame := rfl
@[simp] theorem plus_exits : (r.plus code).exits = r.exits := rfl
@[simp] theorem plus_labels : (r.plus code).labels = r.labels := rfl
@[simp] theorem plus_data : (r.plus code).data = r.data := rfl
@[simp] theorem plus_calls : (r.plus code).calls = r.calls := rfl
@[simp] theorem plus_finished : (r.plus code).finished = r.finished := rfl

@[simp] theorem withPool_code : (r.withPool p).code = r.code := rfl
@[simp] theorem withPool_pool : (r.withPool p).pool = p := rfl
@[simp] theorem withPool_depth : (r.withPool p).depth = r.depth := rfl
@[simp] theorem withPool_name : (r.withPool p).name = r.name := rfl
@[simp] theorem withPool_frame : (r.withPool p).frame = r.frame := rfl
@[simp] theorem withPool_exits : (r.withPool p).exits = r.exits := rfl
@[simp] theorem withPool_labels : (r.withPool p).labels = r.labels := rfl
@[simp] theorem withPool_data : (r.withPool p).data = r.data := rfl
@[simp] theorem withPool_calls : (r.withPool p).calls = r.calls := rfl
@[simp] theorem withPool_finished : (r.withPool p).finished = r.finished := rfl

@[simp] theorem withLabels_code : (r.withLabels n).code = r.code := rfl
@[simp] theorem withLabels_pool : (r.withLabels n).pool = r.pool := rfl
@[simp] theorem withLabels_depth : (r.withLabels n).depth = r.depth := rfl
@[simp] theorem withLabels_name : (r.withLabels n).name = r.name := rfl
@[simp] theorem withLabels_frame : (r.withLabels n).frame = r.frame := rfl
@[simp] theorem withLabels_exits : (r.withLabels n).exits = r.exits := rfl
@[simp] theorem withLabels_labels : (r.withLabels n).labels = n := rfl
@[simp] theorem withLabels_data : (r.withLabels n).data = r.data := rfl
@[simp] theorem withLabels_calls : (r.withLabels n).calls = r.calls := rfl
@[simp] theorem withLabels_finished : (r.withLabels n).finished = r.finished := rfl

@[simp] theorem withDepth_code : (r.withDepth d).code = r.code := rfl
@[simp] theorem withDepth_pool : (r.withDepth d).pool = r.pool := rfl
@[simp] theorem withDepth_depth : (r.withDepth d).depth = d := rfl
@[simp] theorem withDepth_name : (r.withDepth d).name = r.name := rfl
@[simp] theorem withDepth_frame : (r.withDepth d).frame = r.frame := rfl
@[simp] theorem withDepth_exits : (r.withDepth d).exits = r.exits := rfl
@[simp] theorem withDepth_labels : (r.withDepth d).labels = r.labels := rfl
@[simp] theorem withDepth_data : (r.withDepth d).data = r.data := rfl
@[simp] theorem withDepth_calls : (r.withDepth d).calls = r.calls := rfl
@[simp] theorem withDepth_finished : (r.withDepth d).finished = r.finished := rfl

@[simp] theorem withFrame_code : (r.withFrame frame).code = r.code := rfl
@[simp] theorem withFrame_pool : (r.withFrame frame).pool = r.pool := rfl
@[simp] theorem withFrame_depth : (r.withFrame frame).depth = r.depth := rfl
@[simp] theorem withFrame_name : (r.withFrame frame).name = r.name := rfl
@[simp] theorem withFrame_frame : (r.withFrame frame).frame = frame := rfl
@[simp] theorem withFrame_exits : (r.withFrame frame).exits = r.exits := rfl
@[simp] theorem withFrame_labels : (r.withFrame frame).labels = r.labels := rfl
@[simp] theorem withFrame_data : (r.withFrame frame).data = r.data := rfl
@[simp] theorem withFrame_calls : (r.withFrame frame).calls = r.calls := rfl
@[simp] theorem withFrame_finished : (r.withFrame frame).finished = r.finished := rfl

@[simp] theorem calling_code : (r.calling).code = r.code := rfl
@[simp] theorem calling_pool : (r.calling).pool = r.pool := rfl
@[simp] theorem calling_depth : (r.calling).depth = r.depth := rfl
@[simp] theorem calling_name : (r.calling).name = r.name := rfl
@[simp] theorem calling_frame : (r.calling).frame = r.frame := rfl
@[simp] theorem calling_exits : (r.calling).exits = r.exits := rfl
@[simp] theorem calling_labels : (r.calling).labels = r.labels := rfl
@[simp] theorem calling_data : (r.calling).data = r.data := rfl
@[simp] theorem calling_calls : (r.calling).calls = true := rfl
@[simp] theorem calling_finished : (r.calling).finished = r.finished := rfl

/-! ### Changes in a row -/

@[simp] theorem plus_nil : r.plus [] = r := by simp [plus]

@[simp] theorem plus_plus : (r.plus code).plus more = r.plus (code ++ more) := by
  have happend : r.code ++ code ++ more = r.code ++ (code ++ more) := by
    apply Array.ext'
    simp
  simp [plus, happend]

@[simp] theorem withPool_plus : (r.withPool p).plus code = (r.plus code).withPool p := rfl
@[simp] theorem withLabels_plus : (r.withLabels n).plus code = (r.plus code).withLabels n := rfl
@[simp] theorem withDepth_plus : (r.withDepth d).plus code = (r.plus code).withDepth d := rfl
@[simp] theorem withPool_withPool : (r.withPool p).withPool p' = r.withPool p' := rfl
@[simp] theorem withLabels_withPool :
    (r.withLabels n).withPool p = (r.withPool p).withLabels n := rfl
@[simp] theorem withDepth_withPool :
    (r.withDepth d).withPool p = (r.withPool p).withDepth d := rfl
@[simp] theorem withLabels_withLabels : (r.withLabels n).withLabels n' = r.withLabels n' := rfl
@[simp] theorem withDepth_withLabels :
    (r.withDepth d).withLabels n = (r.withLabels n).withDepth d := rfl
@[simp] theorem withDepth_withDepth : (r.withDepth d).withDepth d' = r.withDepth d' := rfl
@[simp] theorem withPool_self : r.withPool r.pool = r := rfl
@[simp] theorem withLabels_self : r.withLabels r.labels = r := rfl
@[simp] theorem withDepth_self : r.withDepth r.depth = r := rfl

end Routine

/-! ## Kinds of frames -/

/-- Two frames are of the same kind, and keep their temporaries in the same block. -/
def SameKind : Frame → Frame → Prop
  | .stack _, .stack _ => True
  | .block label _, .block label' _ => label' = label
  | .bare, .bare => True
  | _, _ => False

/-- A frame is of its own kind. -/
theorem SameKind.refl (f : Frame) : SameKind f f := by
  cases f <;> trivial

/-- Being of the same kind is transitive. -/
theorem SameKind.trans {f g h : Frame} (hfg : SameKind f g) (hgh : SameKind g h) :
    SameKind f h := by
  cases f <;> cases g <;> cases h <;> simp_all [SameKind]

/-- A frame of the kind of a stack frame is one. -/
theorem SameKind.stack {f : Frame} {g : StackFrame} (h : SameKind f (.stack g)) :
    ∃ f', f = .stack f' := by
  cases f with
  | stack f' => exact ⟨f', rfl⟩
  | block label size => exact h.elim
  | bare => exact h.elim

/-! ## Labels -/

/-- A text is its own label when it has no blanks. -/
theorem symbol_eq_self {text : String} : symbol text = text ↔ ' ' ∉ text.toList := by
  rw [symbol, ← String.toList_inj, String.toList_ofList, List.filter_eq_self]
  constructor
  · intro h hmem
    simpa using h ' ' hmem
  · intro h c hc
    simp only [ne_eq, decide_eq_true_eq]
    rintro rfl
    exact h hc

/-- The label of a text has no blanks. -/
theorem symbol_symbol (text : String) : symbol (symbol text) = symbol text := by
  rw [symbol_eq_self, symbol, String.toList_ofList]
  simp

/-- Two texts without blanks in a row have none. -/
theorem symbol_append {a b : String} (ha : symbol a = a) (hb : symbol b = b) :
    symbol (a ++ b) = a ++ b := by
  rw [symbol_eq_self] at ha hb ⊢
  simp [ha, hb]

/-- A number is written without blanks. -/
theorem symbol_repr (n : Nat) : symbol (Nat.repr n) = Nat.repr n := by
  rw [symbol_eq_self, Nat.toList_repr]
  intro h
  exact absurd (Nat.isDigit_of_mem_toDigits (by decide) (by decide) h) (by decide)

/-- The labels that a routine makes have no blanks. -/
theorem symbol_newLabel {name hint : String} (hname : symbol name = name)
    (hhint : symbol hint = hint) (n : Nat) :
    symbol (name ++ "$" ++ hint ++ Nat.repr n) = name ++ "$" ++ hint ++ Nat.repr n :=
  symbol_append (symbol_append (symbol_append hname (by decide)) hhint) (symbol_repr n)

/-! ## Steps -/

section Steps

variable {r r' : Routine} {u : Unit}

/-- A fault that does not happen. -/
@[simp] theorem orFault_ok {α : Type} {x : Except Fault α} {a : α} :
    orFault x r = .ok a r' ↔ x = .ok a ∧ r = r' := by
  cases x with
  | ok b => simp [orFault]
  | error e => simp [orFault]

/-- Taking a register changes the pool only. -/
@[simp] theorem allocate_ok {q : Register} :
    allocate r = .ok q r' ↔ ∃ pool, r.pool.allocate = .ok (q, pool) ∧ r.withPool pool = r' := by
  simp only [allocate, bind_ok, get_ok, orFault_ok, set_ok, pure_ok]
  constructor
  · rintro ⟨_, _, ⟨rfl, rfl⟩, ⟨q', pool⟩, _, ⟨h, rfl⟩, _, _, rfl, rfl, rfl⟩
    exact ⟨pool, h, rfl⟩
  · rintro ⟨pool, h, rfl⟩
    exact ⟨_, _, ⟨rfl, rfl⟩, (q, pool), _, ⟨h, rfl⟩, (), _, rfl, rfl, rfl⟩

/-- Giving a register back changes the pool only. -/
@[simp] theorem release_ok {q : Register} :
    release q r = .ok u r' ↔ ∃ pool, r.pool.release q = .ok pool ∧ r.withPool pool = r' := by
  simp only [release, bind_ok, get_ok, orFault_ok, set_ok]
  constructor
  · rintro ⟨_, _, ⟨rfl, rfl⟩, pool, _, ⟨h, rfl⟩, rfl⟩
    exact ⟨pool, h, rfl⟩
  · rintro ⟨pool, h, rfl⟩
    exact ⟨_, _, ⟨rfl, rfl⟩, pool, _, ⟨h, rfl⟩, rfl⟩

/-- Appending a directive. -/
@[simp] theorem append_ok {d : Directive} : append d r = .ok u r' ↔ r.plus [d] = r' := by
  simp [append, Routine.plus]

/-- Emitting an instruction. -/
@[simp] theorem emit_ok {op : Opcode} {registers : List Register} :
    emit op registers r = .ok u r' ↔
      registers.length = op.operands ∧ r.plus [ins op registers] = r' := by
  unfold emit
  by_cases h : registers.length = op.operands
  · simp [h]
  · simp [h]

/-- Loading a word. -/
@[simp] theorem loadWord_ok {q : Register} {w : Word} :
    loadWord q w r = .ok u r' ↔ r.plus [.constant q (.immediate w)] = r' := by
  simp [loadWord]

/-- Counts that fit a word load as the word of their value. -/
theorem ofInt?_eq_some {n : Int} {w : Word} (h : Machine.Word.ofInt? n = some w) :
    0 ≤ n ∧ n < 4294967296 ∧ w = UInt32.ofNat n.toNat := by
  unfold Machine.Word.ofInt? at h
  split at h
  · next hn => exact ⟨hn.1, hn.2, (Option.some.inj h).symm⟩
  · cases h

/-- Loading a count, which has to fit a word. -/
@[simp] theorem loadCount_ok {q : Register} {n : Int} :
    loadCount q n r = .ok u r' ↔
      ∃ w, Machine.Word.ofInt? n = some w ∧ r.plus [.constant q (.immediate w)] = r' := by
  unfold loadCount
  cases h : Machine.Word.ofInt? n with
  | none => simp
  | some w => simp

/-- Loading an address. -/
@[simp] theorem loadAddress_ok {q : Register} {label : String} :
    loadAddress q label r = .ok u r' ↔
      r.plus [.constant q (.reference (symbol label))] = r' := by
  simp [loadAddress]

/-- Defining a label. -/
@[simp] theorem placeLabel_ok {name : String} :
    placeLabel name r = .ok u r' ↔ r.plus [.label name] = r' := by
  simp [placeLabel]

/-- A new label counts the labels up. -/
@[simp] theorem newLabel_ok {hint label : String} :
    newLabel hint r = .ok label r' ↔
      r.name ++ "$" ++ hint ++ Nat.repr (r.labels + 1) = label ∧
        r.withLabels (r.labels + 1) = r' := by
  simp only [newLabel, bind_ok, get_ok, set_ok, pure_ok]
  constructor
  · rintro ⟨_, _, ⟨rfl, rfl⟩, _, _, rfl, rfl, rfl⟩
    exact ⟨rfl, rfl⟩
  · rintro ⟨rfl, rfl⟩
    exact ⟨_, _, ⟨rfl, rfl⟩, (), _, rfl, rfl, rfl⟩

/-- Counting pushed words. -/
@[simp] theorem moveDepth_ok {n : Int} :
    moveDepth n r = .ok u r' ↔ r.withDepth (addExtent r.depth n) = r' := by
  simp [moveDepth, Routine.withDepth]

/-- Pushing a register without counting. -/
@[simp] theorem pushWord_ok {q : Register} :
    pushWord q r = .ok u r' ↔ r.plus (pushCode q) = r' := by
  simp [pushWord, pushCode, Opcode.operands]

/-- Popping a register without counting. -/
@[simp] theorem popWord_ok {q : Register} :
    popWord q r = .ok u r' ↔ r.plus (popCode q) = r' := by
  simp [popWord, popCode, Opcode.operands]

/-- Pushing a register. -/
@[simp] theorem push_ok {q : Register} :
    push q r = .ok u r' ↔
      (r.plus (pushCode q)).withDepth (addExtent r.depth 1) = r' := by
  simp [push]

/-- Popping a register. -/
@[simp] theorem pop_ok {q : Register} :
    pop q r = .ok u r' ↔
      (r.plus (popCode q)).withDepth (addExtent r.depth (-1)) = r' := by
  simp [pop]

/-- Pushing registers one after the other without counting. -/
theorem pushWords_ok {rs : List Register} :
    (forM rs pushWord : Gen PUnit) r = .ok u r' ↔ r.plus (rs.flatMap pushCode) = r' := by
  induction rs generalizing r with
  | nil => simp
  | cons q rs ih => simp [ih]

/-- Popping registers one after the other without counting. -/
theorem popWords_ok {rs : List Register} :
    (forM rs popWord : Gen PUnit) r = .ok u r' ↔ r.plus (rs.flatMap popCode) = r' := by
  induction rs generalizing r with
  | nil => simp
  | cons q rs ih => simp [ih]

/-! ## Steps in front of others

A step whose outcome is determined is taken off the front of a computation. -/

section Front

variable {α : Type} {b : α} {f : Unit → Gen α}

/-- A step with a determined outcome in front of a computation. -/
theorem front {x : Gen Unit} {s : Routine} {c : Prop}
    (h : ∀ u r', x r = .ok u r' ↔ c ∧ s = r') :
    (x >>= f) r = .ok b r' ↔ c ∧ f () s = .ok b r' := by
  simp only [bind_ok, h]
  constructor
  · rintro ⟨_, _, ⟨hc, rfl⟩, hf⟩
    exact ⟨hc, hf⟩
  · rintro ⟨hc, hf⟩
    exact ⟨(), s, ⟨hc, rfl⟩, hf⟩

/-- A step that cannot fail in front of a computation. -/
theorem front_total {x : Gen Unit} {s : Routine} (h : ∀ u r', x r = .ok u r' ↔ s = r') :
    (x >>= f) r = .ok b r' ↔ f () s = .ok b r' := by
  rw [front (c := True) (s := s) fun u r' => by rw [h, true_and], true_and]

/-- An instruction may be taken off the front of what is generated. -/
theorem emit_front {op : Opcode} {registers : List Register} :
    (emit op registers >>= f) r = .ok b r' ↔
      registers.length = op.operands ∧ f () (r.plus [ins op registers]) = .ok b r' :=
  front fun _ _ => emit_ok

/-- The loading of a word may be taken off the front of what is generated. -/
theorem loadWord_front {q : Register} {w : Word} :
    (loadWord q w >>= f) r = .ok b r' ↔
      f () (r.plus [.constant q (.immediate w)]) = .ok b r' :=
  front_total fun _ _ => loadWord_ok

/-- The loading of an address may be taken off the front of what is generated. -/
theorem loadAddress_front {q : Register} {label : String} :
    (loadAddress q label >>= f) r = .ok b r' ↔
      f () (r.plus [.constant q (.reference (symbol label))]) = .ok b r' :=
  front_total fun _ _ => loadAddress_ok

/-- A label may be taken off the front of what is generated. -/
theorem placeLabel_front {name : String} :
    (placeLabel name >>= f) r = .ok b r' ↔ f () (r.plus [.label name]) = .ok b r' :=
  front_total fun _ _ => placeLabel_ok

/-- A move of the depth may be taken off the front of what is generated. -/
theorem moveDepth_front {n : Int} :
    (moveDepth n >>= f) r = .ok b r' ↔ f () (r.withDepth (addExtent r.depth n)) = .ok b r' :=
  front_total fun _ _ => moveDepth_ok

/-- A pushed register may be taken off the front of what is generated. -/
theorem push_front {q : Register} :
    (push q >>= f) r = .ok b r' ↔
      f () ((r.plus (pushCode q)).withDepth (addExtent r.depth 1)) = .ok b r' :=
  front_total fun _ _ => push_ok

/-- Taking a register in front of a computation. -/
theorem allocate_front {g : Register → Gen α} :
    (allocate >>= g) r = .ok b r' ↔
      ∃ q pool, r.pool.allocate = .ok (q, pool) ∧ g q (r.withPool pool) = .ok b r' := by
  simp only [bind_ok, allocate_ok]
  constructor
  · rintro ⟨q, _, ⟨pool, h, rfl⟩, hg⟩
    exact ⟨q, pool, h, hg⟩
  · rintro ⟨q, pool, h, hg⟩
    exact ⟨q, _, ⟨pool, h, rfl⟩, hg⟩

/-- Giving a register back in front of a computation. -/
theorem release_front {q : Register} :
    (release q >>= f) r = .ok b r' ↔
      ∃ pool, r.pool.release q = .ok pool ∧ f () (r.withPool pool) = .ok b r' := by
  simp only [bind_ok, release_ok]
  constructor
  · rintro ⟨_, _, ⟨pool, h, rfl⟩, hf⟩
    exact ⟨pool, h, hf⟩
  · rintro ⟨pool, h, hf⟩
    exact ⟨(), _, ⟨pool, h, rfl⟩, hf⟩

/-- Loading a count in front of a computation. -/
theorem loadCount_front {q : Register} {n : Int} :
    (loadCount q n >>= f) r = .ok b r' ↔
      0 ≤ n ∧ n < 4294967296 ∧
        f () (r.plus [.constant q (.immediate (UInt32.ofNat n.toNat))]) = .ok b r' := by
  simp only [bind_ok, loadCount_ok]
  constructor
  · rintro ⟨_, _, ⟨w, hw, rfl⟩, hf⟩
    obtain ⟨hlow, hhigh, rfl⟩ := ofInt?_eq_some hw
    exact ⟨hlow, hhigh, hf⟩
  · rintro ⟨hlow, hhigh, hf⟩
    exact ⟨(), _, ⟨_, if_pos ⟨hlow, hhigh⟩, rfl⟩, hf⟩

/-- Making a label in front of a computation. -/
theorem newLabel_front {hint : String} {g : String → Gen α} :
    (newLabel hint >>= g) r = .ok b r' ↔
      g (r.name ++ "$" ++ hint ++ Nat.repr (r.labels + 1)) (r.withLabels (r.labels + 1)) =
        .ok b r' := by
  simp only [bind_ok, newLabel_ok]
  constructor
  · rintro ⟨_, _, ⟨rfl, rfl⟩, hg⟩
    exact hg
  · intro hg
    exact ⟨_, _, ⟨rfl, rfl⟩, hg⟩

end Front

end Steps

/-! ## Completing a routine -/

/-- How a frame is entered, and how it is left. -/
inductive Encloses : Frame → Gen Unit → Gen Unit → Prop
  | stack (f : StackFrame) : Encloses (.stack f) (enterStack f) (exitStack f)
  | block (label : String) (size : Int) : Encloses (.block label size) (enterBlock label size) exitBlock

/-- A completed routine is its label, whatever the entry emits, the body, the exit label, and whatever the
exit emits. -/
theorem finish_cases {r r' : Routine} {code : List Directive} (h : finish r = .ok code r') :
    ∃ enter leave, Encloses r.frame enter leave ∧ ∃ r₀ r₁ : Routine,
      r₀.code.toList = [.label r.name] ∧ r₀.pool = r.pool ∧ r₀.calls = r.calls ∧ r₀.data = r.data ∧
        r₀.frame = r.frame ∧ enter r₀ = .ok () r₁ ∧
        leave (r₁.plus (r.code.toList ++ [.label r.exit])) = .ok () r' ∧ code = r'.code.toList := by
  have hbody (r₁ : Routine) : r₁.plus (r.code.toList ++ [.label r.exit]) =
      ({ r₁ with code := r₁.code ++ r.code } : Routine).plus [.label r.exit] := by
    have happend : r₁.code ++ r.code.toList = r₁.code ++ r.code := Array.ext' (by simp)
    rw [← Routine.plus_plus]
    simp only [Routine.plus, happend]
  obtain ⟨name, frame, pool, body, data, labels, depth, exits, finished, calls⟩ := r
  unfold finish at h
  rw [get_bind_ok] at h
  cases frame with
  | stack f =>
    simp only [guard_ok, bind_ok, modify_ok, placeLabel_ok, get_ok, pure_ok] at h
    obtain ⟨-, -, _, rfl, -, -, -, _, rfl, -, _, rfl, _, r₁, henter, -, _, rfl, -, _, rfl, _, _, hexit,
      _, _, ⟨rfl, rfl⟩, rfl, rfl⟩ := h
    refine ⟨_, _, .stack f, _, r₁, ?_, ?_, ?_, ?_, ?_, henter, hbody r₁ ▸ hexit, rfl⟩
    all_goals rfl
  | block label size =>
    simp only [guard_ok, bind_ok, modify_ok, placeLabel_ok, get_ok, pure_ok] at h
    obtain ⟨-, -, _, rfl, -, -, -, _, rfl, -, _, rfl, _, r₁, henter, -, _, rfl, -, _, rfl, _, _, hexit,
      _, _, ⟨rfl, rfl⟩, rfl, rfl⟩ := h
    refine ⟨_, _, .block label size, _, r₁, ?_, ?_, ?_, ?_, ?_, henter, hbody r₁ ▸ hexit, rfl⟩
    all_goals rfl
  | bare =>
    simp only [guard_ok, bind_ok, throw_ok, false_and, and_false, exists_false] at h

end Qll.Codegen
