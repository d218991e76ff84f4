import Qll.Codegen.Lowering
import Qll.Checked.Tree
import Qll.Proofs.Codegen.Emission

/-!
# Labels of lowered code

The code of an expression or a statement places every label it makes and none besides, and it refers
to its own labels, to the labels of the static storage in the tree, and to what its routine knows:
the exit, the ends of the surrounding loops, and the block of temporaries.
-/

namespace Qll.Codegen

open Check (Storage)
open Checked (Expr Stmt ExprsOver FieldsOver StmtsOver StmtOver?)
open Machine (Register Opcode Word addExtent)
open Qll.Types (Ty Member)
open Qll.Computation

/-! ## Frames -/

section Frames

variable {r r' : Routine} {size : Int}

/-- Room for a local is made in the frame. -/
theorem declareLocal_frame {st : Storage} {u : Unit} (h : declareLocal st size r = .ok u r') :
    ∃ frame, (SameKind r.frame frame ∧ frame.isHandler = r.frame.isHandler) ∧
      r' = r.withFrame frame := by
  simp only [declareLocal, get_bind_ok, guard_ok] at h
  obtain ⟨-, h⟩ := h
  cases hframe : r.frame with
  | stack f =>
    simp only [hframe, guard_ok, set_ok] at h
    obtain ⟨-, rfl⟩ := h
    refine ⟨.stack _, ?_, rfl⟩
    exact ⟨trivial, rfl⟩
  | block label size =>
    rw [hframe] at h
    exact absurd h throw_ok
  | bare =>
    rw [hframe] at h
    exact absurd h throw_ok

/-- Room for a temporary is made in the frame. -/
theorem temporary_frame {slot : Slot} (h : temporary size r = .ok slot r') :
    ∃ frame, (SameKind r.frame frame ∧ frame.isHandler = r.frame.isHandler) ∧
      r' = r.withFrame frame := by
  simp only [temporary, get_bind_ok] at h
  cases hframe : r.frame with
  | stack f =>
    simp only [hframe, bind_ok, set_ok, pure_ok] at h
    obtain ⟨-, _, rfl, rfl, rfl⟩ := h
    refine ⟨.stack _, ?_, rfl⟩
    exact ⟨trivial, rfl⟩
  | block label taken =>
    simp only [hframe, bind_ok, set_ok, pure_ok] at h
    obtain ⟨-, _, rfl, rfl, rfl⟩ := h
    refine ⟨.block _ _, ?_, rfl⟩
    exact ⟨rfl, rfl⟩
  | bare =>
    rw [hframe] at h
    exact absurd h throw_ok

end Frames

namespace Writes

variable {ext : Set String}

/-! ## Copies, fills and checks -/

/-- The loop that copies words refers to nothing new. -/
theorem copyWords (pd ps v : Register) (n : Nat) :
    Writes ext [] (Codegen.copyWords pd ps v n) := by
  induction n with
  | zero => exact pure _
  | succ n ih =>
    refine .seq (.emit _ _ rfl) fun _ => .seq (.emit _ _ rfl) fun _ => .ite ?_ ih
    exact .seq (.emit _ _ rfl) fun _ => .seq (.emit _ _ rfl) fun _ => ih

/-- Words that are copied one by one refer to nothing new. -/
theorem copyUnrolled (dst src : Register) (n : Nat) :
    Writes ext [] (Codegen.copyUnrolled dst src n) :=
  .seq .allocate fun pd => .seq .allocate fun ps => .seq .allocate fun v =>
    .seq (.emit _ _ rfl) fun _ => .seq (.emit _ _ rfl) fun _ =>
      .seq (.copyWords pd ps v n) fun _ =>
      .seq (.release v) fun _ => .seq (.release ps) fun _ => .release pd

/-- The loop jumps back to its own label. -/
theorem copyLoop (dst src n : Register) : Writes ext [] (Codegen.copyLoop dst src n) := by
  refine .seq .allocate fun pd => .seq .allocate fun ps => .seq .allocate fun v =>
    .seq .allocate fun target => .newLabel (by decide) fun l hl => ?_
  refine .seq (.emit _ _ rfl) fun _ => .seq (.emit _ _ rfl) fun _ =>
    .seq (.loadAddress target (by simp [hl])) fun _ => .last (.placeLabel l) fun _ => ?_
  exact .seq (.emit _ _ rfl) fun _ => .seq (.emit _ _ rfl) fun _ =>
    .seq (.emit _ _ rfl) fun _ => .seq (.emit _ _ rfl) fun _ =>
    .seq (.emit _ _ rfl) fun _ => .seq (.emit _ _ rfl) fun _ =>
      .seq (.release target) fun _ => .seq (.release v) fun _ => .seq (.release ps) fun _ =>
        .release pd

/-- A copy of any size refers to nothing new. -/
theorem copy (dst src : Register) (size : Int) : Writes ext [] (Codegen.copy dst src size) := by
  refine .ite (.pure _) (.ite ?_ (.ite (.copyUnrolled dst src _) ?_))
  · exact .seq .allocate fun v => .seq (.emit _ _ rfl) fun _ => .seq (.emit _ _ rfl) fun _ =>
      .release v
  · exact .seq .allocate fun n => .seq (.loadCount n size) fun _ =>
      .seq (.copyLoop dst src n) fun _ => .release n

/-- The loop that fills words refers to nothing new. -/
theorem fillWords (p v : Register) (n : Nat) : Writes ext [] (Codegen.fillWords p v n) := by
  induction n with
  | zero => exact pure _
  | succ n ih => exact .seq (.emit _ _ rfl) fun _ => .ite (.seq (.emit _ _ rfl) fun _ => ih) ih

/-- Filling words of any number refers to nothing new. -/
theorem fill (dst v : Register) (size : Int) : Writes ext [] (Codegen.fill dst v size) :=
  .seq .allocate fun p => .seq (.emit _ _ rfl) fun _ => .seq (.fillWords p v _) fun _ =>
    .release p

/-- Stopping the machine refers to nothing new. -/
theorem stopWith (w : Word) : Writes ext [] (Codegen.stopWith w) :=
  .seq (.loadWord _ _) fun _ => .emit _ _ rfl

/-- A check jumps over the code that stops the machine. -/
theorem checkNull (p : Register) : Writes ext [] (Codegen.checkNull p) :=
  .newLabel (by decide) fun l hl => .seq (.jumpIfNotZero p (by simp [hl])) fun _ =>
    .seq (.stopWith _) fun _ => .placeLabel l

/-- The check of an index refers to nothing new. -/
theorem checkBounds (index length : Register) : Writes ext [] (Codegen.checkBounds index length) :=
  .newLabel (by decide) fun l hl => .seq .allocate fun t => .seq (.emit _ _ rfl) fun _ =>
    .seq (.jumpIfZero t (by simp [hl])) fun _ => .seq (.release t) fun _ =>
      .seq (.stopWith _) fun _ => .placeLabel l

/-- The check of a length refers to nothing new. -/
theorem checkCapacity (length capacity : Register) :
    Writes ext [] (Codegen.checkCapacity length capacity) :=
  .newLabel (by decide) fun l hl => .seq .allocate fun t => .seq (.emit _ _ rfl) fun _ =>
    .seq (.jumpIfNotZero t (by simp [hl])) fun _ => .seq (.release t) fun _ =>
      .seq (.stopWith _) fun _ => .placeLabel l

/-- A comparison refers to nothing new. -/
theorem compare (op : Opcode) (a b : Register) (hop : (op == .rti) = false) :
    Writes ext [] (Codegen.compare op a b) :=
  .seq (.emit _ _ hop) fun _ => .seq (.release b) fun _ => .seq (.emit _ _ rfl) fun _ => .pure _

/-- A negation refers to nothing new. -/
theorem negate (q : Register) : Writes ext [] (Codegen.negate q) :=
  .seq .allocate fun z => .seq (.loadWord z 0) fun _ => .seq (.emit _ _ rfl) fun _ =>
    .seq (.release z) fun _ => .emit _ _ rfl

/-! ## Addresses -/

/-- Reading the frame pointer refers to nothing new. -/
theorem framePointer : Writes ext [] Codegen.framePointer := by
  refine .seq .allocate fun q => .get fun s => .ite (.seq (.emit _ _ rfl) fun _ => .pure _) ?_
  exact .seq (.loadCount q _) fun _ => .seq (.emit _ _ rfl) fun _ =>
    .seq (.emit _ _ rfl) fun _ => .pure _

/-- An address below the frame refers to nothing new. -/
theorem belowFrame (n : Int) : Writes ext [] (Codegen.belowFrame n) :=
  .seq .framePointer fun q => .seq .allocate fun t => .seq (.loadCount t n) fun _ =>
    .seq (.emit _ _ rfl) fun _ => .seq (.release t) fun _ => .pure q

/-- An address above the frame refers to nothing new. -/
theorem aboveFrame (n : Int) : Writes ext [] (Codegen.aboveFrame n) :=
  .seq .framePointer fun q => .seq (.adjust _ q n rfl) fun _ => .pure q

/-- The address of a local variable or a parameter refers to nothing new. -/
theorem frameAddress (st : Storage) : Writes ext [] (Codegen.frameAddress st) := by
  refine .get fun s => ?_
  split
  · split
    · exact aboveFrame _
    · exact belowFrame _
    · exact throw _
  · exact throw _
  · exact throw _

/-- The label of static storage is known. -/
def StaticIn (ext : Set String) (st : Storage) : Prop :=
  st.kind.isStatic = true → symbol st.qualified ∈ ext

/-- The address of a storage refers to its label at most. -/
theorem address {st : Storage} (h : StaticIn ext st) : Writes ext [] (Codegen.address st) := by
  unfold Codegen.address
  split
  · next hstatic => exact .seq .allocate fun q => .seq (.loadAddress q (h hstatic)) fun _ => .pure q
  · exact frameAddress st

/-- A change of the frame that keeps its kind emits nothing. -/
theorem of_frame {α : Type} {x : Gen α}
    (h : ∀ r a r', x r = .ok a r' → ∃ frame,
      (SameKind r.frame frame ∧ frame.isHandler = r.frame.isHandler) ∧ r' = r.withFrame frame) :
    Writes ext [] x := by
  intro r a r' _ hx
  obtain ⟨frame, ⟨hkind, hhandler⟩, rfl⟩ := h r a r' hx
  exact ⟨rfl, rfl, hkind, hhandler, Nat.le_refl _, id, fun _ hd _ => hd, [], [], [], by simp, by simp,
    .refl _, .nil, by simp⟩

/-- A local variable refers to nothing new. -/
theorem declareLocal (st : Storage) (size : Int) :
    Writes ext [] (Codegen.declareLocal st size) :=
  of_frame fun _ _ _ => declareLocal_frame

/-- A temporary refers to nothing new. -/
theorem temporary (size : Int) : Writes ext [] (Codegen.temporary size) :=
  of_frame fun _ _ _ => temporary_frame

/-- The address of a temporary refers to the block of temporaries, if there is one. -/
theorem slotAddress (slot : Slot) : Writes ext [] (Codegen.slotAddress slot) := by
  intro r q r' hr h
  simp only [Codegen.slotAddress, get_bind_ok] at h
  cases hframe : r.frame with
  | stack f =>
    rw [hframe] at h
    exact belowFrame _ r q r' hr h
  | block label size =>
    rw [hframe] at h
    refine Writes.seq .allocate (fun q => ?_) r q r' hr h
    exact .seq (.loadAddress q (hr.block label size hframe)) fun _ =>
      .seq (.adjust _ q _ rfl) fun _ => .pure q
  | bare =>
    rw [hframe] at h
    exact absurd h throw_ok

/-- The address of the result refers to nothing new. -/
theorem resultAddress : Writes ext [] Codegen.resultAddress := by
  refine .get fun s => ?_
  split
  · refine .ite (.throw _) ?_
    exact .seq (.aboveFrame _) fun q => .seq (.emit _ _ rfl) fun _ => .pure q
  · exact throw _
  · exact throw _

/-! ## Calls -/

/-- Passing an argument refers to what its own code does. -/
theorem passArgument {arg : Argument} (h : Writes ext [] arg.compile) :
    Writes ext [] (Codegen.passArgument arg) := by
  refine .seq h fun q => .ite ?_ ?_
  · exact .seq (.push q) fun _ => .seq (.release q) fun _ => .pure _
  · exact .seq (.reserve _) fun _ => .seq .allocate fun d => .seq (.emit _ _ rfl) fun _ =>
      .seq (.copy d q _) fun _ => .seq (.release d) fun _ => .seq (.release q) fun _ => .pure _

/-- Passing arguments refers to what the code of each does. -/
theorem passArguments {args : List Argument} (h : ∀ arg ∈ args, Writes ext [] arg.compile)
    (words : Int) : Writes ext [] (Codegen.passArguments args words) := by
  induction args generalizing words with
  | nil => exact pure _
  | cons arg args ih =>
    exact .seq (.passArgument (h arg List.mem_cons_self)) fun n =>
      ih (fun x hx => h x (List.mem_cons_of_mem arg hx)) _

/-- The slot of a result refers to nothing new. -/
theorem passResultSlot (size : Int) : Writes ext [] (Codegen.passResultSlot size) :=
  .seq (.temporary size) fun slot => .seq (.slotAddress slot) fun q => .seq (.push q) fun _ =>
    .seq (.release q) fun _ => .pure slot

/-- What a call does once its result slot is passed. -/
theorem callBehind (callee : Register) (saved : List Register) {args : List Argument}
    (hargs : ∀ arg ∈ args, Writes ext [] arg.compile) (words : Int) (slot : Option Slot) :
    Writes ext [] (do
      let words ← Codegen.passArguments args words
      let back ← Codegen.newLabel "return"
      Codegen.loadAddress .result back
      Codegen.emit .jmp [callee]
      Codegen.placeLabel back
      Codegen.release callee
      Codegen.drop words
      saved.reverse.forM Codegen.pop
      match slot with
      | some slot => Codegen.slotAddress slot
      | none =>
        let r ← Codegen.allocate
        Codegen.emit .mov [r, .result]
        return r) := by
  refine .seq (.passArguments hargs _) fun words => .newLabel (by decide) fun back hback => ?_
  refine .seq (.loadAddress _ (by simp [hback])) fun _ => .seq (.emit _ _ rfl) fun _ =>
    .last (.placeLabel back) fun _ => .seq (.release _) fun _ => .seq (.drop _) fun _ =>
      .seq (.forM .pop _) fun _ => ?_
  cases slot with
  | some slot => exact slotAddress slot
  | none => exact .seq .allocate fun q => .seq (.emit _ _ rfl) fun _ => .pure q

/-- A call marks its routine and refers to the label behind itself. -/
theorem call {callee : Register} {args : List Argument} {result : Result}
    (hargs : ∀ arg ∈ args, Writes ext [] arg.compile) :
    Writes ext [] (Codegen.call callee args result) := by
  unfold Codegen.call
  refine .seq (fun r u r' _ h => ?_) fun _ => .get fun s => .seq (.forM .push _) fun _ => ?_
  · obtain rfl := modify_ok.1 h
    exact ⟨rfl, rfl, .refl _, rfl, Nat.le_refl _, fun _ => rfl, fun _ hd _ => hd, [], [], [], by simp,
      by simp, .refl _, .nil, by simp⟩
  · split
    · refine .seq (fun r a r' hr h => ?_) fun slot => callBehind callee _ hargs _ slot
      obtain ⟨slot, hslot, -⟩ := map_ok.1 h
      exact passResultSlot _ r slot r' hr hslot
    · exact .seq (.pure _) fun slot => callBehind callee _ hargs _ slot

/-- Leaving a routine refers to its exit. -/
theorem leave (q : Register) (result : Result) : Writes ext [] (Codegen.leave q result) := by
  have hjump : Writes ext [] (do Codegen.jump (← MonadState.get).exit) := by
    intro r u r' hr h
    exact jump (by rw [hr.symbol_exit]; exact hr.exit) r u r' hr (get_bind_ok.1 h)
  refine .ite (.ite (.seq (.emit _ _ rfl) fun _ => hjump) ?_) hjump
  exact .seq .resultAddress fun out => .seq (.copy out q _) fun _ => .seq (.emit _ _ rfl) fun _ =>
    .seq (.release out) fun _ => hjump

/-! ## Expressions -/

/-- Loading a value refers to nothing new. -/
theorem loadValue (shapes : Shapes) (q : Register) (t : Ty) (lvalue : Bool) :
    Writes ext [] (Codegen.loadValue shapes q t lvalue) := by
  refine .ite (.pure _) (.seq (.orFault _) fun _ => .ite ?_ (.pure _))
  exact .seq (.emit _ _ rfl) fun _ => .pure _

/-- Storing a value refers to nothing new. -/
theorem storeValue (shapes : Shapes) (addr v : Register) (t : Ty) :
    Writes ext [] (Codegen.storeValue shapes addr v t) :=
  .seq (.orFault _) fun _ => .ite (.emit _ _ rfl) (.seq (.orFault _) fun _ => .copy _ _ _)

/-- Scaling an index refers to nothing new. -/
theorem scale (q : Register) (size : Int) : Writes ext [] (Codegen.scale q size) :=
  .ite (.pure _) (.seq .allocate fun t => .seq (.loadCount t size) fun _ =>
    .seq (.emit _ _ rfl) fun _ => .release t)

/-- A part that is filled in refers to nothing new. -/
theorem filledIn {α : Type} (part : Option α) : Writes ext [] (Codegen.filledIn part) := by
  cases part with
  | none => exact throw _
  | some a => exact pure a

/-- What follows a part that checking has filled in. -/
theorem filled {α β : Type} {part : Option α} {f : α → Gen β} {placed : List String}
    (h : ∀ a ∈ part, Writes ext placed (f a)) :
    Writes ext placed (Codegen.filledIn part >>= f) := by
  cases part with
  | none =>
    intro r b r' _ hr
    obtain ⟨_, _, hthrow, -⟩ := bind_ok.1 hr
    exact absurd hthrow throw_ok
  | some a => exact h a rfl

/-- Storing a descriptor refers to nothing new. -/
theorem storeDescriptor (addr length : Register) :
    Writes ext [] (Codegen.storeDescriptor addr length) :=
  .seq (.adjust _ _ _ rfl) fun _ => .seq (.emit _ _ rfl) fun _ =>
    .seq (.adjust _ _ _ rfl) fun _ => .emit _ _ rfl

/-- Clearing members refers to nothing new. -/
theorem zeroMembers (shapes : Shapes) (slot : Slot) (members : List (Member Ty)) (zero : Register)
    (given : List String) (rest : List (Member Ty)) :
    Writes ext [] (Codegen.zeroMembers shapes slot members zero given rest) := by
  induction rest with
  | nil => exact pure _
  | cons m rest ih =>
    refine .ite ?_ ih
    exact .seq (.orFault _) fun _ => .seq (.filledIn _) fun _ => .seq (.slotAddress slot) fun addr =>
      .seq (.adjust _ addr _ rfl) fun _ => .seq (.orFault _) fun _ =>
        .seq (.fill addr zero _) fun _ => .seq (.release addr) fun _ => ih

/-- Checking an index refers to nothing new. -/
theorem checkIndex (base i : Register) (kind : Checked.IndexKind) :
    Writes ext [] (Codegen.checkIndex base i kind) := by
  cases kind with
  | array length =>
    exact .seq .allocate fun n => .seq (.loadCount n length) fun _ => .seq (.checkBounds i n) fun _ =>
      .release n
  | slice =>
    exact .seq .allocate fun n => .seq (.emit _ _ rfl) fun _ =>
      .seq (.adjust _ n _ rfl) fun _ => .seq (.emit _ _ rfl) fun _ =>
        .seq (.checkBounds i n) fun _ => .release n
  | pointer => exact pure _

/-- What is known stays known when a label is made. -/
theorem insert_static {P : Storage → Prop} (hP : ∀ st, P st → StaticIn ext st) (l : String) :
    ∀ st, P st → StaticIn (insert l ext) st :=
  fun st h hstatic => Set.mem_insert_of_mem l (hP st h hstatic)

end Writes

section Trees

variable {P : Storage → Prop} (shapes : Shapes)

/-- No operator ends an interrupt. -/
theorem binaryOpcode?_beq_rti {op : Source.BinaryOp} {code : Opcode} {swapped : Bool}
    (h : binaryOpcode? op = some (code, swapped)) : (code == .rti) = false := by
  cases op <;> cases h <;> rfl

/-- Finding an element refers to nothing. -/
theorem writes_element {ext : Set String} (kind : Checked.IndexKind) (b i : Register) (t : Ty) (lvalue : Bool) :
    Writes ext [] (do
      if kind = .slice then emit .load [b, b]
      scale i (← orFault (shapes.size t))
      emit .add [b, b, i]
      release i
      loadValue shapes b t lvalue) := by
  have hrest : Writes ext [] (do
      scale i (← orFault (shapes.size t))
      emit .add [b, b, i]
      release i
      loadValue shapes b t lvalue) :=
    .seq (.orFault _) fun size => .seq (.scale i size) fun _ => .seq (.emit _ _ rfl) fun _ =>
      .seq (.release i) fun _ => .loadValue _ _ _ _
  exact .ite (.seq (.emit _ _ rfl) fun _ => hrest) hrest

/-- An operator on two registers refers to nothing. -/
theorem writes_operator {ext : Set String} (op : Source.BinaryOp) (a b : Register) :
    Writes ext [] (match binaryOpcode? op with
      | none => throw (.noLowering op.spelling)
      | some (code, true) => compare code a b
      | some (code, false) => do
        emit code [a, a, b]
        release b
        return a : Gen Register) := by
  split
  · exact .throw _
  · next code hcode => exact .compare _ a b (binaryOpcode?_beq_rti hcode)
  · next code hcode =>
    exact .seq (.emit _ _ (binaryOpcode?_beq_rti hcode)) fun _ => .seq (.release b) fun _ => .pure a

/-- The right side of a logical operator is skipped if the left one decides: the code refers to what that of the
right side refers to. -/
theorem writes_logical {ext : Set String} {right : Gen Register} (op : Source.BinaryOp) (a : Register)
    (hright : ∀ done, Writes (insert done ext) [] right) : Writes ext [] (do
      let done ← newLabel "logic"
      if op = .logicalAnd then jumpIfZero a done else jumpIfNotZero a done
      let b ← right
      emit .mov [a, b]
      release b
      placeLabel done
      return a) := by
  refine .newLabel (by decide) fun done hdone => ?_
  have hdone : symbol done ∈ insert done ext := by simp [hdone]
  have hrest : Writes (insert done ext) [done] (do
      let b ← right
      emit .mov [a, b]
      release b
      placeLabel done
      return a) :=
    .seq (hright done) fun b => .seq (.emit _ _ rfl) fun _ => .seq (.release b) fun _ =>
      .last (.placeLabel done) fun _ => .pure a
  exact .ite (.seq (.jumpIfZero a hdone) fun _ => hrest) (.seq (.jumpIfNotZero a hdone) fun _ => hrest)

mutual

/-- The code of an expression refers to the static storage that the expression names. -/
theorem writes_compileExpr {ext : Set String} (hP : ∀ st, P st → Writes.StaticIn ext st) :
    ∀ (e : Expr) (lvalue : Bool), e.Over P → Writes ext [] (compileExpr shapes e lvalue)
  | .integer w, _, _ => .seq .allocate fun q => .seq (.loadWord q w) fun _ => .pure q
  | .text s, _, _ => .placeText s fun l hl => .seq .allocate fun q =>
      .seq (.loadAddress q (by simp [hl])) fun _ => .pure q
  | .null, _, _ => .seq .allocate fun q => .seq (.loadWord q 0) fun _ => .pure q
  | .struct members fields, _, h => by
    refine .seq (.filledIn _) fun members => .seq (.orFault _) fun size =>
      .seq (.temporary size) fun slot => .seq (writes_compileFields hP slot members fields h) fun _ => ?_
    refine .ite ?_ (.slotAddress slot)
    exact .seq .allocate fun zero => .seq (.loadWord zero 0) fun _ =>
      .seq (.zeroMembers _ _ _ _ _ _) fun _ => .seq (.release zero) fun _ => .slotAddress slot
  | .array element elements, _, h => .seq (.filledIn _) fun element => .seq (.orFault _) fun size =>
      .seq (.temporary _) fun slot =>
        .seq (writes_compileElements hP slot element size 0 elements h) fun _ => .slotAddress slot
  | .name text none t, _, _ => .throw _
  | .name text (some st) t, lvalue, h => .seq (.address (hP st h)) fun addr =>
      .ite (.pure _) (.loadValue _ _ _ _)
  | .call callee arguments signature, _, h => by
    refine .seq (writes_compileExpr hP callee false h.1) fun callee => .seq (.filledIn _) fun signature =>
      .seq (.orFault _) fun parts => .seq (.orFault _) fun result => .call ?_
    exact writes_compileArguments hP arguments parts h.2
  | .member base off t _, lvalue, h => .seq (writes_compileExpr hP base true h) fun q =>
      .seq (.adjust _ q off rfl) fun _ => .loadValue _ _ _ _
  | .arrow base off t _, lvalue, h => .seq (writes_compileExpr hP base false h) fun q =>
      .seq (.checkNull q) fun _ => .seq (.adjust _ q off rfl) fun _ => .loadValue _ _ _ _
  | .index base position unchecked kind t, lvalue, h => by
    refine .seq (writes_compileExpr hP base _ h.1) fun b =>
      .seq (writes_compileExpr hP position false h.2) fun i => .ite ?_ (writes_element shapes kind b i t lvalue)
    exact .seq (.checkIndex b i kind) fun _ => writes_element shapes kind b i t lvalue
  | .cast operand, _, h => writes_compileExpr hP operand false h
  | .sizeOf size, _, _ => .seq .allocate fun q => .seq (.loadCount q size) fun _ => .pure q
  | .new heap none, _, h => by
    refine .filled fun part hpart => .seq (.orFault _) fun size =>
      .seq (.address (hP _ (h part hpart))) fun callee => .call ?_
    simp only [List.mem_singleton, forall_eq]
    exact .seq .allocate fun q => .seq (.loadCount q size) fun _ => .pure q
  | .new heap (some count), _, h => by
    refine .filled fun part hpart => .seq (.orFault _) fun size =>
      .seq (writes_compileExpr hP count false h.2) fun n =>
        .seq (.address (hP _ (h.1 part hpart))) fun callee => .seq (.call ?_) fun p => ?_
    · simp only [List.mem_singleton, forall_eq]
      exact .seq .allocate fun q => .seq (.emit _ _ rfl) fun _ => .seq (.scale q size) fun _ =>
        .pure q
    · exact .seq (.temporary _) fun slot => .seq (.slotAddress slot) fun addr =>
        .seq (.emit _ _ rfl) fun _ => .seq (.release p) fun _ =>
          .seq (.storeDescriptor addr n) fun _ => .seq (.release addr) fun _ =>
            .seq (.release n) fun _ => .slotAddress slot
  | .binary op rule left right element, _, h => by
    refine .seq (writes_compileExpr hP left false h.1) fun a => .ite (writes_logical op a fun done => ?_)
      (.seq (writes_compileExpr hP right false h.2) fun b => .ite ?_ (writes_operator op a b))
    · exact writes_compileExpr (Writes.insert_static hP done) right false h.2
    · exact .filled fun _ _ => .seq (.orFault _) fun size => .seq (.scale b size) fun _ => writes_operator op a b
  | .unary .addressOf operand _, _, h => writes_compileExpr hP operand true h
  | .unary .deref operand t, lvalue, h => .seq (writes_compileExpr hP operand false h) fun p =>
      .seq (.checkNull p) fun _ => .loadValue _ _ _ _
  | .unary .neg operand _, _, h => .seq (writes_compileExpr hP operand false h) fun q =>
      .seq .allocate fun z => .seq (.loadWord z 0) fun _ => .seq (.emit _ _ rfl) fun _ =>
        .seq (.release z) fun _ => .pure q
  | .unary .not operand _, _, h => .seq (writes_compileExpr hP operand false h) fun q =>
      .seq (.negate q) fun _ => .pure q
  | .unary .bitNot operand _, _, h => .seq (writes_compileExpr hP operand false h) fun q =>
      .seq (.emit _ _ rfl) fun _ => .pure q
  | .descriptor data length, _, h => .seq (writes_compileExpr hP data false h) fun data =>
      .seq (.temporary _) fun slot => .seq (.slotAddress slot) fun addr =>
        .seq (.emit _ _ rfl) fun _ =>
        .seq (.release data) fun _ => .seq .allocate fun n => .seq (.loadCount n length) fun _ =>
          .seq (.storeDescriptor addr n) fun _ => .seq (.release n) fun _ =>
            .seq (.release addr) fun _ => .slotAddress slot

/-- The code of arguments refers to the static storage that they name. -/
theorem writes_compileArguments {ext : Set String} (hP : ∀ st, P st → Writes.StaticIn ext st) :
    ∀ (args : List Expr) (parts : List (Int × Bool)), ExprsOver P args →
      ∀ arg ∈ compileArguments shapes args parts, Writes ext [] arg.compile
  | [], _, _ => by simp [compileArguments]
  | _ :: _, [], _ => by simp [compileArguments]
  | e :: rest, (size, integral) :: parts, h => by
    simp only [compileArguments, List.mem_cons, forall_eq_or_imp]
    exact ⟨writes_compileExpr hP e false h.1, writes_compileArguments hP rest parts h.2⟩

/-- The code of fields refers to the static storage that they name. -/
theorem writes_compileFields {ext : Set String} (hP : ∀ st, P st → Writes.StaticIn ext st) (slot : Slot)
    (members : List (Member Ty)) : ∀ (fields : List (String × Expr)), FieldsOver P fields →
      Writes ext [] (compileFields shapes slot members fields)
  | [], _ => .pure _
  | (_, e) :: rest, h => .seq (.orFault _) fun _ => .seq (.filledIn _) fun _ =>
      .seq (writes_compileExpr hP e false h.1) fun v => .seq (.slotAddress slot) fun addr =>
        .seq (.adjust _ addr _ rfl) fun _ => .seq (.storeValue _ _ _ _) fun _ =>
          .seq (.release addr) fun _ => .seq (.release v) fun _ =>
            writes_compileFields hP slot members rest h.2

/-- The code of elements refers to the static storage that they name. -/
theorem writes_compileElements {ext : Set String} (hP : ∀ st, P st → Writes.StaticIn ext st)
    (slot : Slot) (element : Ty) (size : Int) : ∀ (i : Int) (elements : List Expr),
      ExprsOver P elements → Writes ext [] (compileElements shapes slot element size i elements)
  | _, [], _ => .pure _
  | i, e :: rest, h => .seq (writes_compileExpr hP e false h.1) fun v =>
      .seq (.slotAddress slot) fun addr => .seq (.adjust _ addr _ rfl) fun _ =>
        .seq (.storeValue _ _ _ _) fun _ => .seq (.release addr) fun _ => .seq (.release v) fun _ =>
          writes_compileElements hP slot element size (i + 1) rest h.2

end

mutual

/-- The code of a statement refers to the static storage that the statement names. -/
theorem writes_compileStmt {ext : Set String} (hP : ∀ st, P st → Writes.StaticIn ext st) :
    ∀ s : Stmt, s.Over P → Writes ext [] (compileStmt shapes s)
  | .expression e, h => .seq (writes_compileExpr shapes hP e false h) fun q => .release q
  | .var st none, h => .seq (.orFault _) fun size => .seq (.declareLocal st size) fun _ =>
      .seq (.address (hP st h)) fun addr => .seq .allocate fun zero => .seq (.loadWord zero 0) fun _ =>
        .seq (.orFault _) fun _ => .seq (.fill addr zero _) fun _ => .seq (.release zero) fun _ =>
          .release addr
  | .var st (some e), h => .seq (.orFault _) fun size => .seq (.declareLocal st size) fun _ =>
      .seq (writes_compileExpr shapes hP e false h.2) fun v => .seq (.address (hP st h.1)) fun addr =>
        .seq (.storeValue _ _ _ _) fun _ => .seq (.release addr) fun _ => .release v
  | .assign target t value length, h => by
    have hrest (addr v : Register) : Writes ext [] (do
        storeValue shapes addr v t
        release addr
        release v) :=
      .seq (.storeValue _ _ _ _) fun _ => .seq (.release addr) fun _ => .release v
    refine .seq (writes_compileExpr shapes hP value false h.2) fun v =>
      .seq (writes_compileExpr shapes hP target true h.1) fun addr => .ite ?_ (hrest addr v)
    exact .seq .allocate fun capacity => .seq (.emit _ _ rfl) fun _ =>
      .seq (.adjust _ _ _ rfl) fun _ => .seq (.emit _ _ rfl) fun _ =>
        .seq (.checkCapacity _ _) fun _ => .seq (.release _) fun _ => hrest addr v
  | .cond condition yes no, h => by
    obtain ⟨hcondition, hyes, hno⟩ := h
    refine .newLabel (by decide) fun otherwise hotherwise => ?_
    cases hempty : no.isEmpty with
    | true =>
      -- Nothing jumps behind a branch that is missing.
      refine .unusedLabel fun done => ?_
      have hP := Writes.insert_static hP otherwise
      refine .seq (writes_compileExpr shapes hP condition false hcondition) fun q =>
        .seq (.jumpIfZero q (by simp [hotherwise])) fun _ => .seq (.release q) fun _ =>
          .seq (writes_compileStmts hP yes hyes) fun _ => ?_
      exact .last (.placeLabel otherwise) fun _ => .pure _
    | false =>
      refine .newLabel (by decide) fun done hdone => ?_
      have hP := Writes.insert_static (Writes.insert_static hP otherwise) done
      refine .seq (writes_compileExpr shapes hP condition false hcondition) fun q =>
        .seq (.jumpIfZero q (by simp [hotherwise])) fun _ => .seq (.release q) fun _ =>
          .seq (writes_compileStmts hP yes hyes) fun _ => .seq (.jump (by simp [hdone])) fun _ => ?_
      refine Writes.perm (.bind (.placeLabel otherwise) fun _ =>
        .seq (writes_compileStmts hP no hno) fun _ => .placeLabel done) (.swap _ _ _)
  | .whileLoop condition body, h => by
    refine .newLabel (by decide) fun top htop => .newLabel (by decide) fun done hdone => ?_
    have hP := Writes.insert_static (Writes.insert_static hP top) done
    refine Writes.perm (.bind (.placeLabel top) fun _ =>
      .seq (writes_compileExpr shapes hP condition false h.1) fun q => ?_) (.swap _ _ _)
    refine .seq (.jumpIfZero q (by simp [hdone])) fun _ => .seq (.release q) fun _ =>
      .loop (by simp [hdone]) (writes_compileStmts hP body h.2) fun _ => ?_
    exact .seq (.jump (by simp [htop])) fun _ => .placeLabel done
  | .forLoop init condition step body, h => by
    obtain ⟨hinit, hcondition, hstep, hbody⟩ := h
    refine .newLabel (by decide) fun top htop => .newLabel (by decide) fun done hdone => ?_
    have hP := Writes.insert_static (Writes.insert_static hP top) done
    have hloop : Writes (insert done (insert top ext)) [done] (do
        pushExit done
        compileStmts shapes body
        popExit
        compileOption shapes step
        jump top
        placeLabel done) :=
      .loop (by simp [hdone]) (writes_compileStmts hP body hbody) fun _ =>
        .seq (writes_compileOption hP step hstep) fun _ => .seq (.jump (by simp [htop])) fun _ =>
          .placeLabel done
    refine .seq (writes_compileOption hP init hinit) fun _ =>
      Writes.perm (.bind (.placeLabel top) fun _ => ?_) (.swap _ _ _)
    cases condition with
    | none => exact hloop
    | some e =>
      exact .seq (writes_compileExpr shapes hP e false (hcondition e rfl)) fun q =>
        .seq (.jumpIfZero q (by simp [hdone])) fun _ => .seq (.release q) fun _ => hloop
  | .breakLoop, _ => .leaveLoop
  | .giveBack none, _ => .leave .result .void
  | .giveBack (some (e, t)), h => .seq (.orFault _) fun result =>
      .seq (writes_compileExpr shapes hP e false (h _ rfl)) fun v => .seq (.leave v result) fun _ =>
        .release v
  | .block body, h => writes_compileStmts hP body h
  | .delete value slice dealloc, h => by
    refine .filled fun st hst => .seq (.address (hP st (h.2 st hst))) fun callee =>
      .seq (.call ?_) fun q => .release q
    simp only [List.mem_singleton, forall_eq]
    exact .seq (writes_compileExpr shapes hP value false h.1) fun q =>
      .ite (.seq (.emit _ _ rfl) fun _ => .pure q) (.pure q)

/-- The code of a statement that may be missing refers to the static storage that it names. -/
theorem writes_compileOption {ext : Set String} (hP : ∀ st, P st → Writes.StaticIn ext st) :
    ∀ s : Option Stmt, StmtOver? P s → Writes ext [] (compileOption shapes s)
  | none, _ => .pure _
  | some s, h => .statement (writes_compileStmt hP s h)

/-- The code of some statements refers to the static storage that they name. -/
theorem writes_compileStmts {ext : Set String} (hP : ∀ st, P st → Writes.StaticIn ext st) :
    ∀ ss : List Stmt, StmtsOver P ss → Writes ext [] (compileStmts shapes ss)
  | [], _ => .pure _
  | s :: rest, h => .seq (.statement (writes_compileStmt hP s h.1)) fun _ =>
      writes_compileStmts hP rest h.2

end

end Trees

end Qll.Codegen
