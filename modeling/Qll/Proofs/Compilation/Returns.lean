import Qll.Proofs.Codegen.Interrupts
import Qll.Proofs.Compilation.Labels

/-!
# How routines are left

The routine of a function is left by a jump to the return address that its exit takes from the stack.
An interrupt is ended nowhere but at the end of the routine of a handler. What refers to a handler is
recorded, so where nothing recorded names a handler, the address of its routine stands nowhere in the
program, and no call enters it.
-/

namespace Qll.Codegen

open Assembly (Directive labels references)
open Machine (Register ins pushCode popCode)
open Qll.Computation

/-! ## Code that ends no interrupt -/

/-- Code in which no interrupt is ended. -/
def Ordinary (code : List Directive) : Prop := ∀ d ∈ code, endsInterrupt d = false

/-- No code ends no interrupt. -/
@[simp] theorem ordinary_nil : Ordinary [] := by simp [Ordinary]

/-- Code is ordinary if its first directive is, and the others are. -/
@[simp] theorem ordinary_cons {d : Directive} {code : List Directive} :
    Ordinary (d :: code) ↔ endsInterrupt d = false ∧ Ordinary code := List.forall_mem_cons

/-- Two pieces of ordinary code in a row are ordinary. -/
@[simp] theorem ordinary_append {code more : List Directive} :
    Ordinary (code ++ more) ↔ Ordinary code ∧ Ordinary more := List.forall_mem_append

/-- Code made of parts that end no interrupt ends none. -/
theorem ordinary_flatMap {α : Type} {items : List α} {code : α → List Directive}
    (h : ∀ a, Ordinary (code a)) : Ordinary (items.flatMap code) := by
  intro d hd
  obtain ⟨a, -, hd⟩ := List.mem_flatMap.1 hd
  exact h a d hd

/-- Pushing a register ends no interrupt. -/
@[simp] theorem ordinary_pushCode (q : Register) : Ordinary (pushCode q) :=
  ordinary_cons.2 ⟨rfl, ordinary_cons.2 ⟨rfl, ordinary_nil⟩⟩

/-- Popping a register ends no interrupt. -/
@[simp] theorem ordinary_popCode (q : Register) : Ordinary (popCode q) :=
  ordinary_cons.2 ⟨rfl, ordinary_cons.2 ⟨rfl, ordinary_nil⟩⟩

/-- Making room on the stack ends no interrupt. -/
@[simp] theorem ordinary_roomCode (n : Nat) : Ordinary (roomCode n) := by
  unfold roomCode
  split
  · exact ordinary_cons.2 ⟨rfl, ordinary_cons.2 ⟨rfl, ordinary_nil⟩⟩
  · exact ordinary_nil

/-- What a routine ends with: a handler ends its interrupt, every other routine takes its return
address from the stack and jumps there. -/
def leaveCode (handler : Bool) : List Directive :=
  if handler then [ins .rti []] else popCode scratchFrame ++ [ins .jmp [scratchFrame]]

/-- The code of the routine at a label: nothing in it ends an interrupt but the end of a handler. -/
def RoutineAt (label : String) (handler : Bool) (code : List Directive) : Prop :=
  ∃ body, Ordinary body ∧ code = .label label :: (body ++ leaveCode handler)

/-- Code that is built on an empty routine ends no interrupt. -/
theorem Emits.ordinary {ext : Set String} {r₀ r : Routine} (h : Emits ext [] r₀ r) (h₀ : r₀.Fresh) :
    Ordinary (r.code.toList ++ r.data.toList) := by
  intro d hd
  refine Bool.eq_false_iff.2 fun hends => ?_
  have hmem := h.returns d hd hends
  rw [h₀.code, h₀.data] at hmem
  simp at hmem

/-- The code of a completed function or handler. -/
theorem finish_routineAt {r r' : Routine} {f : StackFrame} {code : List Directive}
    (hbody : Ordinary r.code.toList) (hframe : r.frame = .stack f) (h : finish r = .ok code r') :
    RoutineAt r.name f.interrupt code := by
  have hsaved (saved : List Register) : Ordinary (saved.flatMap pushCode) ∧ Ordinary (saved.flatMap popCode) :=
    ⟨ordinary_flatMap ordinary_pushCode, ordinary_flatMap ordinary_popCode⟩
  cases hf : f.interrupt with
  | false =>
    obtain ⟨-, rfl⟩ := finish_ok hframe hf h
    refine ⟨entryCode r.pool.calleeSaveUsed f.size.toNat ++ (r.code.toList ++ .label r.exit ::
      (popCode scratchFrame ++ r.pool.calleeSaveUsed.reverse.flatMap popCode ++
        [ins .mov [.sp, scratchFrame]])), ?_, ?_⟩
    · simp [entryCode, hbody, hsaved, endsInterrupt, ins, Assembly.Instruction.ofList]
    · simp [exitCode, leaveCode]
  | true =>
    obtain ⟨-, rfl⟩ := finish_handler_ok hframe hf h
    refine ⟨handlerEntryCode (preserved true r) f.size.toNat ++ (r.code.toList ++ .label r.exit ::
      (popCode scratchFrame ++ ins .mov [.sp, scratchFrame] :: ins .add [.sp, .sp, .one] ::
        (preserved true r).reverse.flatMap popCode)), ?_, ?_⟩
    · simp [handlerEntryCode, hbody, hsaved, endsInterrupt, ins, Assembly.Instruction.ofList]
    · simp [handlerExitCode, leaveCode]

/-- A routine with its frame on the stack gets no data when it is completed. -/
theorem finish_stack_data {r r' : Routine} {f : StackFrame} {code : List Directive}
    (hframe : r.frame = .stack f) (h : finish r = .ok code r') : r'.data = r.data := by
  obtain ⟨r₀, r₁, -, -, hdata, -, henter, hexit, -⟩ := finish_stack_ok hframe h
  obtain ⟨⟨-, hentered⟩, -⟩ := Quiet.enterStack f r₀ () r₁ henter
  obtain ⟨⟨-, hexited⟩, -⟩ := Quiet.exitStack f _ () r' hexit
  rw [hexited, ← hdata, ← hentered]
  rfl

/-- The entry of the initializing routine. -/
def openCode (saved : List Register) : List Directive := (.result :: saved).flatMap pushCode

/-- The exit of the initializing routine. -/
def closeCode (saved : List Register) : List Directive :=
  (scratchFrame :: saved).reverse.flatMap popCode ++ [ins .jmp [scratchFrame]]

/-- Words under a label, or nothing. -/
def Reserves (label : String) (block : List Directive) : Prop :=
  block = [] ∨ ∃ values : List Assembly.Value, values.flatMap Assembly.Value.references = [] ∧
    block = [.label label, .data values]

/-- The entry of the initializing routine, and the block of its temporaries. -/
theorem enterBlock_ok {label : String} {size : Int} {r r' : Routine} {u : Unit}
    (h : enterBlock label size r = .ok u r') : r'.pool = r.pool ∧
      r'.code.toList = r.code.toList ++ openCode r.pool.calleeSaveUsed ∧
      ∃ block, r'.data.toList = r.data.toList ++ block ∧ Reserves label block := by
  unfold enterBlock at h
  simp only [bind_ok, pushWord_ok, get_ok, pushWords_ok, List.forM_eq_forM] at h
  obtain ⟨-, _, rfl, _, _, ⟨rfl, rfl⟩, -, _, rfl, hlast⟩ := h
  by_cases hsize : 0 < size
  · simp only [if_pos hsize, bind_ok, orFault_ok, modify_ok] at hlast
    obtain ⟨d, _, ⟨hd, rfl⟩, rfl⟩ := hlast
    obtain ⟨values, -, rfl, hvalues⟩ := zeroWords_ok hd
    exact ⟨rfl, by simp [openCode], _, by simp, .inr ⟨values, hvalues, rfl⟩⟩
  · simp only [if_neg hsize, pure_ok] at hlast
    obtain ⟨-, rfl⟩ := hlast
    exact ⟨rfl, by simp [openCode], [], by simp, .inl rfl⟩

/-- The exit of the initializing routine takes the return address from the stack. -/
theorem exitBlock_ok {r r' : Routine} {u : Unit} (h : exitBlock r = .ok u r') :
    r' = r.plus (closeCode r.pool.calleeSaveUsed) := by
  unfold exitBlock at h
  simp only [bind_ok, get_ok, popWord_ok, popWords_ok, emit_ok, List.forM_eq_forM] at h
  obtain ⟨_, _, ⟨rfl, rfl⟩, -, _, rfl, -, _, rfl, -, rfl⟩ := h
  simp [closeCode]

/-- The completed initializing routine is its label, the entry, the body, the exit label and the exit. -/
theorem finish_block_ok {label : String} {size : Int} {r r' : Routine} {code : List Directive}
    (hframe : r.frame = .block label size) (h : finish r = .ok code r') :
    code = .label r.name :: (openCode r.pool.calleeSaveUsed ++
        (r.code.toList ++ .label r.exit :: closeCode r.pool.calleeSaveUsed)) ∧
      ∃ block, r'.data.toList = r.data.toList ++ block ∧ Reserves label block := by
  obtain ⟨enter, leave, hencloses, r₀, r₁, hcode₀, hpool₀, -, hdata₀, -, henter, hexit, rfl⟩ := finish_cases h
  rw [hframe] at hencloses
  cases hencloses with
  | block =>
    obtain ⟨hpool, hcode, block, hblock, hreserves⟩ := enterBlock_ok henter
    obtain rfl := exitBlock_ok hexit
    exact ⟨by simp [hcode, hcode₀, hpool, hpool₀], block, by simp [hblock, hdata₀], hreserves⟩

/-- The code and the data of the completed initializing routine. -/
theorem finish_initializer {r r' : Routine} {label : String} {size : Int} {code : List Directive}
    (hbody : Ordinary (r.code.toList ++ r.data.toList)) (hframe : r.frame = .block label size)
    (h : finish r = .ok code r') : RoutineAt r.name false code ∧ Ordinary r'.data.toList := by
  obtain ⟨hbody, hdata⟩ := ordinary_append.1 hbody
  have hsaved (saved : List Register) : Ordinary (saved.flatMap pushCode) ∧ Ordinary (saved.flatMap popCode) :=
    ⟨ordinary_flatMap ordinary_pushCode, ordinary_flatMap ordinary_popCode⟩
  obtain ⟨rfl, block, hblock, hreserves⟩ := finish_block_ok hframe h
  have hordinary : Ordinary block := by
    obtain rfl | ⟨values, -, rfl⟩ := hreserves
    · exact ordinary_nil
    · simp [endsInterrupt]
  refine ⟨⟨openCode r.pool.calleeSaveUsed ++ (r.code.toList ++ .label r.exit ::
    r.pool.calleeSaveUsed.reverse.flatMap popCode), ?_, ?_⟩, ?_⟩
  · simp [openCode, hbody, hsaved, endsInterrupt]
  · simp [closeCode, leaveCode]
  · simp [hblock, hdata, hordinary]

/-- The start ends no interrupt. -/
theorem ordinary_startCode {entry : String} {result : Result} {code : List Directive}
    (h : startCode entry result = .ok code) : Ordinary code := by
  obtain rfl := startCode_ok h
  have hcall (target back : String) : Ordinary (startCallCode target back) := by
    simp [startCallCode, endsInterrupt, ins, Assembly.Instruction.ofList]
  have hstop : Ordinary (stopCode result) := by
    unfold stopCode
    split <;> simp [endsInterrupt, ins, Assembly.Instruction.ofList]
  simp [hcall, hstop, endsInterrupt]

/-! ## Labels with a dollar sign -/

/-- A label that a routine makes has a dollar sign. -/
theorem Made.dollar {name : String} {low high : Nat} {new : List String} (h : Made name low high new)
    {l : String} (hl : l ∈ new) : '$' ∈ l.toList := by
  obtain ⟨hint, n, -, -, -, rfl⟩ := h.form l hl
  simp [madeLabel]

/-- There is a dollar sign in the label of an exit. -/
theorem dollar_exit (name : String) : '$' ∈ (name ++ "$exit").toList := by simp

/-- A routine that is built on an empty one refers to labels with a dollar sign, and to what is known. -/
theorem Emits.references {ext : Set String} {r₀ r : Routine} (h : Emits ext [] r₀ r) (h₀ : r₀.Fresh) :
    ∀ l ∈ Assembly.references (r.code.toList ++ r.data.toList), '$' ∈ l.toList ∨ l ∈ ext := by
  obtain ⟨code, data, new, hcode, hdata, hlabels, hmade, hrefs⟩ := h.added
  rw [hcode, hdata, h₀.code, h₀.data]
  exact fun l hl => (hrefs l (by simpa using hl)).imp_left fun hl =>
    hmade.dollar (by simpa using hlabels.subset hl)

end Qll.Codegen

namespace Qll.Program

open Assembly (Directive references)
open Check (State GlobalItem FunctionItem World)
open Codegen (Shapes LinkM Linkage Routine Emits Ordinary RoutineAt symbol initialized initializeLabel)
open Qll.Computation

/-- The parts of a program under construction: the routines of some functions, and what all code and
data refer to. -/
structure Split (named : List String) (fs : List FunctionItem) (u : Linkage) : Prop where
  init : Emits (initialized (symbols named)) [] (.initializer initializeLabel) u.init
  routines : ∃ blocks, List.Forall₂ (fun f code => RoutineAt (symbol f.qualified) f.interrupt code) fs blocks ∧
    u.code.toList = blocks.flatten
  ordinary : Ordinary (u.globals.toList ++ u.data.toList)
  refers : ∀ l ∈ references (u.code.toList ++ (u.globals.toList ++ u.data.toList)),
    '$' ∈ l.toList ∨ l ∈ symbols named

section Split

variable {w : World} {named : List String} {fs : List FunctionItem} {u u' : Linkage}

/-- The routine of a function starts empty, and is that of a handler if the function is one. -/
theorem emptyRoutine_handler {f : FunctionItem} {shapes : Shapes} {r : Routine}
    (h : emptyRoutine shapes f = .ok r) : r.frame.isHandler = f.interrupt := by
  unfold emptyRoutine at h
  split at h
  · next hf =>
    cases h
    rw [hf]
    rfl
  · next hf =>
    obtain ⟨params, -, h⟩ := except_bind_ok.1 h
    obtain ⟨result, -, h⟩ := except_bind_ok.1 h
    cases h
    simp only [Bool.not_eq_true] at hf
    rw [hf]
    rfl

/-- Nothing was added yet. -/
theorem Split.empty (library : Bool) (named : List String) : Split named [] { library } :=
  ⟨.refl _ _, ⟨[], .nil, rfl⟩, by simp, by simp⟩

/-- The initializing routine knows its exit and the block of its temporaries. -/
theorem Split.known_init (h : Split named fs u) : Codegen.Known (initialized (symbols named)) u.init :=
  Codegen.known_initializer h.init

/-- A function adds its routine. -/
theorem Split.compileFunction {f : FunctionItem} {shapes : Shapes} (h : Split named fs u)
    (hf : w.SoundFunction f) (hnamed : ∀ q ∈ f.references, q ∈ w.nodes → q ∈ named)
    (hrun : compileFunction shapes f u = .ok () u') : Split named (fs ++ [f]) u' := by
  obtain ⟨frame, body, r, r', hempty, hchecked, hbody, hadd⟩ := compileFunction_ok hrun
  have hemits := emits_body hf hchecked hnamed hbody
  have hfresh := Routine.fresh_create f.qualified (.stack frame)
  obtain ⟨frame', hframe⟩ := exists_stack_of_emits hemits
  have hhandler : frame'.interrupt = f.interrupt := by
    have hkept := hemits.handler.trans (emptyRoutine_handler hempty)
    rwa [hframe] at hkept
  obtain ⟨code, hfinish, rfl⟩ := Codegen.addRoutine_ok hadd
  obtain ⟨hbodies, hdatas⟩ := Codegen.ordinary_append.1 (hemits.ordinary hfresh)
  have hdata := Codegen.finish_stack_data hframe hfinish
  have hroutine := Codegen.finish_routineAt hbodies hframe hfinish
  rw [hhandler, hemits.name] at hroutine
  obtain ⟨-, -, hreferences, -, -⟩ := Codegen.finish_labels hfinish
  obtain ⟨blocks, hblocks, hcode⟩ := h.routines
  refine ⟨h.init, ⟨blocks ++ [code], ?_, by simp [hcode]⟩, ?_, fun l hl => ?_⟩
  · exact List.rel_append hblocks (.cons hroutine .nil)
  · have hordinary := Codegen.ordinary_append.1 h.ordinary
    simp [hordinary.1, hordinary.2, hdata, hdatas]
  · have hmem : l ∈ references (u.code.toList ++ (u.globals.toList ++ u.data.toList)) ∨
        l ∈ references (r.code.toList ++ r.data.toList) := by
      simp only [Array.toList_appendList, Array.toList_append, Assembly.references_append,
        List.mem_append, hreferences, hdata] at hl ⊢
      tauto
    obtain hl | hl := hmem
    · exact h.refers l hl
    · obtain hl | rfl | hl := hemits.references hfresh l hl
      · exact .inl hl
      · exact .inl (Codegen.dollar_exit _)
      · exact .inr hl

/-- A global adds its words, and what stores its initial value. -/
theorem Split.compileGlobal {g : GlobalItem} {shapes : Shapes} (h : Split named fs u)
    (hg : w.SoundGlobal g) (hself : g.qualified ∈ named)
    (hnamed : ∀ q ∈ g.references, q ∈ w.nodes → q ∈ named)
    (hrun : compileGlobal shapes g u = .ok () u') : Split named fs u' := by
  obtain ⟨size, u₁, -, hadd, hrest⟩ := compileGlobal_ok hrun
  obtain ⟨values, -, hvalues, rfl⟩ := Codegen.addGlobal_ok hadd
  have hadded : Split named fs
      { u with globals := (u.globals.push (.label (symbol g.qualified))).push (.data values) } := by
    refine ⟨h.init, h.routines, ?_, fun l hl => h.refers l ?_⟩
    · have hordinary := Codegen.ordinary_append.1 h.ordinary
      simp [hordinary.1, hordinary.2, Codegen.endsInterrupt]
    · simpa [Directive.references, hvalues] using hl
  obtain ⟨-, -, rfl⟩ | ⟨value, hchecked, hinit⟩ := hrest
  · exact hadded
  · obtain ⟨init, hstep, rfl⟩ := Codegen.onInitializer_ok hinit
    have hwrites : Codegen.Writes _ _ (storeInitial shapes g value) :=
      writes_storeInitial hg hchecked hself hnamed
    exact ⟨h.init.trans (hwrites _ _ _ h.known_init hstep), hadded.routines, hadded.ordinary,
      hadded.refers⟩

/-- Globals add no routines. -/
theorem Split.globals {shapes : Shapes} {items : List GlobalItem} (h : Split named fs u)
    (hitems : ∀ g ∈ items, w.SoundGlobal g ∧ g.qualified ∈ named ∧
      ∀ q ∈ g.references, q ∈ w.nodes → q ∈ named)
    (hrun : (items.forM (Program.compileGlobal shapes) : LinkM Unit) u = .ok () u') :
    Split named fs u' := by
  induction items generalizing u with
  | nil =>
    obtain ⟨-, rfl⟩ := pure_ok.1 hrun
    exact h
  | cons g items ih =>
    obtain ⟨_, u₁, hfirst, hrest⟩ := bind_ok.1 hrun
    obtain ⟨⟨hg, hself, hnamed⟩, hitems⟩ := List.forall_mem_cons.1 hitems
    exact ih (h.compileGlobal hg hself hnamed hfirst) hitems hrest

/-- Functions add their routines one by one. -/
theorem Split.functions {shapes : Shapes} {items : List FunctionItem} (h : Split named fs u)
    (hitems : ∀ f ∈ items, w.SoundFunction f ∧ ∀ q ∈ f.references, q ∈ w.nodes → q ∈ named)
    (hrun : (items.forM (Program.compileFunction shapes) : LinkM Unit) u = .ok () u') :
    Split named (fs ++ items) u' := by
  induction items generalizing u fs with
  | nil =>
    obtain ⟨-, rfl⟩ := pure_ok.1 hrun
    simpa using h
  | cons f items ih =>
    obtain ⟨_, u₁, hfirst, hrest⟩ := bind_ok.1 hrun
    obtain ⟨⟨hf, hnamed⟩, hitems⟩ := List.forall_mem_cons.1 hitems
    have hsplit := ih (h.compileFunction hf hnamed hfirst) hitems hrest
    rwa [List.append_assoc] at hsplit

/-- The directives of a linked program: the start, the initializing routine, the routines of the
functions, and words. -/
theorem Split.link {entry : String} {result : Codegen.Result} {ds : List Directive}
    (h : Split named fs u) (hrun : Codegen.link entry result u = .ok ds u') :
    ∃ front init blocks rest, ds = front ++ (init ++ (blocks.flatten ++ rest)) ∧ Ordinary front ∧
      RoutineAt initializeLabel false init ∧
      List.Forall₂ (fun f code => RoutineAt (symbol f.qualified) f.interrupt code) fs blocks ∧
      Ordinary rest ∧
      ∀ l ∈ references (init ++ (blocks.flatten ++ rest)), '$' ∈ l.toList ∨ l ∈ symbols named := by
  obtain ⟨front, init, hfinish, hfront, rfl⟩ := Codegen.link_ok hrun
  obtain ⟨blocks, hblocks, hcode⟩ := h.routines
  have hfresh : (Routine.initializer initializeLabel).Fresh := Routine.fresh_create _ _
  obtain ⟨size, hframe⟩ := Codegen.exists_block_of_emits h.init
  obtain ⟨hroutine, hdata⟩ := Codegen.finish_initializer (h.init.ordinary hfresh) hframe hfinish
  have hname : (Routine.initializer initializeLabel).name = initializeLabel := by decide
  rw [h.init.name, hname] at hroutine
  obtain ⟨-, -, hreferences, -, hreferences'⟩ := Codegen.finish_labels hfinish
  refine ⟨front, init, blocks, u.globals.toList ++ (u.data.toList ++ u'.init.data.toList), ?_, ?_,
    hroutine, hblocks, ?_, fun l hl => ?_⟩
  · simp [hcode]
  · obtain ⟨-, rfl⟩ | ⟨-, hstart⟩ := hfront
    · exact Codegen.ordinary_nil
    · exact Codegen.ordinary_startCode hstart
  · have hordinary := Codegen.ordinary_append.1 h.ordinary
    simp [hordinary.1, hordinary.2, hdata]
  · have hmem : l ∈ references (u.code.toList ++ (u.globals.toList ++ u.data.toList)) ∨
        l ∈ references (u.init.code.toList ++ u.init.data.toList) := by
      simp only [← hcode, Assembly.references_append, List.mem_append, hreferences, hreferences'] at hl ⊢
      tauto
    obtain hl | hl := hmem
    · exact h.refers l hl
    · obtain hl | rfl | rfl | hl := h.init.references hfresh l hl
      · exact .inl hl
      · exact .inl (Codegen.dollar_exit _)
      · exact .inl (by decide)
      · exact .inr hl

end Split

end Qll.Program

namespace Qll.Compilation

open Assembly (Directive references)
open Codegen (Ordinary RoutineAt symbol initializeLabel)
open Program (liveFunctions liveGlobals)
open Qll.Types (IsPlain)

/-- A live declaration records a name. -/
def Recorded (s : Check.State) (live : List String) (q : String) : Prop :=
  (∃ g ∈ liveGlobals s live, q ∈ g.references) ∨ ∃ f ∈ liveFunctions s live, q ∈ f.references

/-- The names of live globals, and of what live declarations record. -/
def namesUsed (s : Check.State) (live : List String) : List String :=
  ((liveGlobals s live).flatMap (fun g => g.qualified :: g.references) ++
    (liveFunctions s live).flatMap (·.references)).filter (· ∈ s.nodes)

/-- A function whose name is used is recorded: no global has its name. -/
theorem recorded_of_mem_namesUsed {s : Check.State} {live : List String} (hnodup : s.nodes.Nodup)
    {f : Check.FunctionItem} (hf : f ∈ s.functions) (h : f.qualified ∈ namesUsed s live) :
    Recorded s live f.qualified := by
  obtain ⟨hmem, -⟩ := List.mem_filter.1 h
  simp only [List.mem_append, List.mem_flatMap, List.mem_cons] at hmem
  obtain ⟨g, hg, heq | hrefs⟩ | ⟨k, hk, hrefs⟩ := hmem
  · have hdistinct := (List.nodup_append.1 hnodup).2.2
    refine absurd heq.symm (hdistinct _ ?_ _ ?_)
    · exact List.mem_map_of_mem (List.mem_of_mem_filter hg)
    · exact List.mem_map_of_mem (Array.mem_toList_iff.2 hf)
  · exact .inl ⟨g, hg, hrefs⟩
  · exact .inr ⟨k, hk, hrefs⟩

/-- The directives of a program consist of the start, the initializing routine, the routines of its
live functions and words. An interrupt is ended only where the routine of a handler is left; the
initializing routine and that of each other function are left by a jump to the return address that is
taken from the stack. And if no live declaration records a handler, then nothing but the start refers
to the label of one, so no call is given its address. -/
theorem routines_return {units : List Interchange.LoadedUnit} {options : Options}
    {ds : List Directive} (hplain : ∀ n ∈ Source.declsNames (units.flatMap (·.decls)), IsPlain n)
    (h : (compile units options).directives = some ds) :
    ∃ s live u, Course (units.flatMap (·.decls)) options s live u
        (compile units options).linkage ds ∧
      ∃ front init blocks rest, ds = front ++ (init ++ (blocks.flatten ++ rest)) ∧ Ordinary front ∧
        RoutineAt initializeLabel false init ∧
        List.Forall₂ (fun f code => RoutineAt (symbol f.qualified) f.interrupt code)
          (liveFunctions s live) blocks ∧ Ordinary rest ∧
        ((∀ f ∈ s.functions, f.interrupt = true → ¬Recorded s live f.qualified) →
          ∀ f ∈ s.functions, f.interrupt = true →
            symbol f.qualified ∉ references (init ++ (blocks.flatten ++ rest))) := by
  obtain ⟨s, live, u, hcourse⟩ := course_of_directives h
  obtain ⟨w, hw, hnodes, hs, hnodup, -⟩ := hcourse.sound Types.plainNames hplain
  have hglobal (i : Check.GlobalItem) (hi : i ∈ liveGlobals s live) : w.SoundGlobal i ∧
      i.qualified ∈ namesUsed s live ∧ ∀ q ∈ i.references, q ∈ w.nodes → q ∈ namesUsed s live := by
    have hmem := Array.mem_toList_iff.1 (List.mem_of_mem_filter hi)
    have hnode : i.qualified ∈ s.nodes :=
      List.mem_append_left _ (List.mem_map_of_mem (Array.mem_toList_iff.2 hmem))
    have hused (q : String) (hq : q ∈ i.qualified :: i.references) (hqnode : q ∈ s.nodes) :
        q ∈ namesUsed s live :=
      List.mem_filter.2 ⟨List.mem_append_left _ (List.mem_flatMap.2 ⟨i, hi, hq⟩), by simpa using hqnode⟩
    rw [hnodes]
    exact ⟨hs.globals i hmem, hused _ List.mem_cons_self hnode,
      fun q hq hqnode => hused q (List.mem_cons_of_mem _ hq) hqnode⟩
  have hfunction (f : Check.FunctionItem) (hf : f ∈ liveFunctions s live) : w.SoundFunction f ∧
      ∀ q ∈ f.references, q ∈ w.nodes → q ∈ namesUsed s live := by
    have hmem := Array.mem_toList_iff.1 (List.mem_of_mem_filter hf)
    rw [hnodes]
    exact ⟨hs.functions f hmem, fun q hq hqnode => List.mem_filter.2
      ⟨List.mem_append_right _ (List.mem_flatMap.2 ⟨f, hf, hq⟩), by simpa using hqnode⟩⟩
  obtain ⟨u₁, hglobals, hfunctions⟩ := Program.compilations_ok hcourse.compiled
  have hsplit := ((Program.Split.empty options.library _).globals hglobal hglobals).functions hfunction
    hfunctions
  obtain ⟨entry, result, hlink, -⟩ := hcourse.linked
  obtain ⟨front, init, blocks, rest, hds, hfront, hinit, hblocks, hrest, hrefers⟩ := hsplit.link hlink
  refine ⟨s, live, u, hcourse, front, init, blocks, rest, hds, hfront, hinit, hblocks, hrest, ?_⟩
  intro hunrecorded f hf hinterrupt hrefer
  have hlegible := legible_nodes hs hw
  have hnode : f.qualified ∈ s.nodes :=
    List.mem_append_right _ (List.mem_map_of_mem (Array.mem_toList_iff.2 hf))
  obtain hdollar | ⟨q, hq, heq⟩ := hrefers _ hrefer
  · rw [symbol, String.toList_ofList] at hdollar
    exact (hlegible _ hnode).spaced.undollared (List.mem_filter.1 hdollar).1
  · have hqnode : q ∈ s.nodes := by simpa using (List.mem_filter.1 hq).2
    obtain rfl := (hlegible _ hnode).symbol_inj (hlegible q hqnode) heq
    exact hunrecorded f hf hinterrupt (recorded_of_mem_namesUsed hnodup hf hq)

/-- A program with an interrupt handler, whose entry point has some statements. -/
def handlerProgram (body : List Source.Stmt) : List Interchange.LoadedUnit :=
  mainProgram [.function "h" [] [] none [] false true ⟨"", 0, 0⟩] body

/-- A handler that nothing calls is left by the end of its interrupt, in a program that compiles. -/
theorem routines_return_handler : (∀ n ∈ Source.declsNames ((handlerProgram []).flatMap (·.decls)), IsPlain n) ∧
    ∃ ds, (compile (handlerProgram []) {}).directives = some ds ∧
      ∃ s live u, Course ((handlerProgram []).flatMap (·.decls)) {} s live u
          (compile (handlerProgram []) {}).linkage ds ∧
        ∃ front init blocks rest, ds = front ++ (init ++ (blocks.flatten ++ rest)) ∧ Ordinary front ∧
          RoutineAt initializeLabel false init ∧
          List.Forall₂ (fun f code => RoutineAt (symbol f.qualified) f.interrupt code)
            (liveFunctions s live) blocks ∧ Ordinary rest ∧
          ((∀ f ∈ s.functions, f.interrupt = true → ¬Recorded s live f.qualified) →
            ∀ f ∈ s.functions, f.interrupt = true →
              symbol f.qualified ∉ references (init ++ (blocks.flatten ++ rest))) := by
  have hplain : ∀ n ∈ Source.declsNames ((handlerProgram []).flatMap (·.decls)), IsPlain n := by
    decide +kernel
  have hgives : (compile (handlerProgram []) {}).directives.isSome = true := by decide +kernel
  obtain ⟨ds, hds⟩ := Option.isSome_iff_exists.1 hgives
  exact ⟨hplain, ds, hds, routines_return hplain hds⟩

/-- The entry point calls the handler. -/
def callsHandler : List Source.Stmt :=
  [.expression (.call (.name "h" [] ⟨"", 0, 0⟩) [] ⟨"", 0, 0⟩) ⟨"", 0, 0⟩]

/-- Whether the directives end an interrupt that nothing raised, in a memory of 128 words. -/
def endsOutside (ds : List Directive) : Bool :=
  match Machine.Image.assemble ds 128 with
  | .ok image =>
    match Machine.run image { start := Codegen.startLabel, steps := 64 } with
    | .error (.notInterrupted _) => true
    | _ => false
  | .error _ => false

/-- A handler can be called like any other function, and then ends an interrupt that nothing raised. -/
theorem handler_called : ∃ ds image pc, (compile (handlerProgram callsHandler) {}).directives = some ds ∧
    Machine.Image.assemble ds 128 = .ok image ∧
      Machine.run image { start := Codegen.startLabel, steps := 64 } = .error (.notInterrupted pc) := by
  have hgives : (compile (handlerProgram callsHandler) {}).directives.any endsOutside = true := by
    decide +kernel
  obtain ⟨ds, hds, hends⟩ := (Option.any_eq_true _ _).1 hgives
  unfold endsOutside at hends
  split at hends
  · next image himage =>
    split at hends
    · next pc hrun => exact ⟨ds, image, pc, hds, himage, hrun⟩
    · cases hends
  · cases hends

end Qll.Compilation
