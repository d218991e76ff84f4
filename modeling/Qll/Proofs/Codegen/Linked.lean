import Qll.Codegen.Linker
import Qll.Proofs.Codegen.Lowered

/-!
# Labels of linked code

A completed routine defines its name, its exit and the labels it made, and its entry and exit refer to
nothing. Linking puts completed routines, the words of globals and the start next to each other, so
the labels of a program are those of its parts, and a reference that no part resolves by itself is one
to another routine, to a global, or to the block of temporaries.
-/

namespace Qll.Codegen

open Assembly (Directive labels references)
open Machine (Register Opcode)
open Qll.Computation

/-! ## Entry and exit -/

/-- A computation appends code without labels and references to a routine, and leaves its frame and
its data. -/
def Quiet {α : Type} (x : Gen α) : Prop :=
  ∀ r a r', x r = .ok a r' → (r'.frame = r.frame ∧ r'.data = r.data) ∧
    ∃ code, r'.code.toList = r.code.toList ++ code ∧ labels code = [] ∧ references code = []

namespace Quiet

variable {α β : Type} {x : Gen α} {f : α → Gen β}

/-- Code without labels and references is appended quietly. -/
theorem of_plus (code : List Directive) (hlabels : labels code = []) (hrefs : references code = [])
    (h : ∀ r a r', x r = .ok a r' → r' = r.plus code) : Quiet x := by
  intro r a r' hx
  obtain rfl := h r a r' hx
  exact ⟨⟨rfl, rfl⟩, code, by simp, hlabels, hrefs⟩

/-- A value that is given back is quiet. -/
theorem pure (a : α) : Quiet (Pure.pure a) := by
  intro r b r' h
  obtain ⟨-, rfl⟩ := pure_ok.1 h
  exact ⟨⟨rfl, rfl⟩, [], by simp, rfl, rfl⟩

/-- Two quiet computations in a row are quiet. -/
theorem bind (hx : Quiet x) (hf : ∀ a, Quiet (f a)) : Quiet (x >>= f) := by
  intro r b r' h
  obtain ⟨a, r₁, hxr, hfr⟩ := bind_ok.1 h
  obtain ⟨⟨hframe, hdata⟩, code, hcode, hlabels, hrefs⟩ := hx r a r₁ hxr
  obtain ⟨⟨hframe', hdata'⟩, code', hcode', hlabels', hrefs'⟩ := hf a r₁ b r' hfr
  exact ⟨⟨hframe'.trans hframe, hdata'.trans hdata⟩, code ++ code', by rw [hcode', hcode, List.append_assoc],
    by simp [hlabels, hlabels'], by simp [hrefs, hrefs']⟩

/-- A computation that reads the routine is quiet if it is for each one. -/
theorem get {g : Routine → Gen β} (h : ∀ r, Quiet (g r)) : Quiet (MonadState.get >>= g) :=
  fun r b r' hg => h r r b r' (get_bind_ok.1 hg)

/-- A choice is quiet if both of its branches are. -/
theorem ite {c : Prop} [Decidable c] {y : Gen α} (hx : Quiet x) (hy : Quiet y) :
    Quiet (if c then x else y) := by
  split
  · exact hx
  · exact hy

/-- A loop is quiet if its rounds are. -/
theorem forM {g : α → Gen PUnit} (h : ∀ a, Quiet (g a)) (items : List α) : Quiet (items.forM g) := by
  induction items with
  | nil => exact pure _
  | cons a items ih => exact .bind (h a) fun _ => ih

/-- One instruction is quiet. -/
theorem emit (op : Opcode) (registers : List Register) : Quiet (Codegen.emit op registers) :=
  of_plus [Machine.ins op registers] rfl rfl fun _ _ _ h => (emit_ok.1 h).2.symm

/-- Loading a count is quiet. -/
theorem loadCount (q : Register) (n : Int) : Quiet (Codegen.loadCount q n) := by
  intro r u r' h
  obtain ⟨w, -, rfl⟩ := loadCount_ok.1 h
  exact ⟨⟨rfl, rfl⟩, [.constant q (.immediate w)], by simp, rfl, rfl⟩

/-- Pushing a word is quiet. -/
theorem pushWord (q : Register) : Quiet (Codegen.pushWord q) :=
  .bind (.emit _ _) fun _ => .emit _ _

/-- Popping a word is quiet. -/
theorem popWord (q : Register) : Quiet (Codegen.popWord q) :=
  .bind (.emit _ _) fun _ => .emit _ _

/-- The entry of a frame on the stack is quiet. -/
theorem enterStack (f : StackFrame) : Quiet (Codegen.enterStack f) := by
  have hlast (saved : List Register) : Quiet (do
      if !f.interrupt then saved.forM Codegen.pushWord
      Codegen.pushWord scratchFrame) :=
    .ite (.bind (.forM .pushWord _) fun _ => .pushWord _) (.pushWord _)
  have hroom (saved : List Register) : Quiet (do
      Codegen.emit .mov [scratchFrame, .sp]
      if 0 < f.size then
        Codegen.loadCount scratchSize f.size
        Codegen.emit .sub [.sp, .sp, scratchSize]
      if !f.interrupt then saved.forM Codegen.pushWord
      Codegen.pushWord scratchFrame) :=
    .bind (.emit _ _) fun _ => .ite (.bind (.loadCount _ _) fun _ => .bind (.emit _ _) fun _ =>
      hlast saved) (hlast saved)
  refine .get fun r => .ite ?_ (.bind (.pushWord _) fun _ => hroom _)
  exact .bind (.forM .pushWord _) fun _ => .bind (.emit _ _) fun _ => hroom _

/-- The exit of a frame on the stack is quiet. -/
theorem exitStack (f : StackFrame) : Quiet (Codegen.exitStack f) := by
  refine .get fun r => .bind (.popWord _) fun _ => .ite ?_ ?_
  · exact .bind (.emit _ _) fun _ => .bind (.emit _ _) fun _ => .bind (.forM .popWord _) fun _ =>
      .emit _ _
  · exact .bind (.forM .popWord _) fun _ => .bind (.emit _ _) fun _ => .bind (.popWord _) fun _ =>
      .emit _ _

/-- The exit of a block is quiet. -/
theorem exitBlock : Quiet Codegen.exitBlock :=
  .get fun _ => .bind (.forM .popWord _) fun _ => .bind (.popWord _) fun _ => .emit _ _

end Quiet

/-- The label that a frame brings with it: that of a block of temporaries with words in it. -/
def Frame.labels : Frame → List String
  | .block label size => if 0 < size then [label] else []
  | _ => []

/-- Zero words have no labels and refer to nothing. -/
theorem zeroWords_ok {size : Int} {d : Directive} (h : zeroWords size = .ok d) :
    ∃ values : List Assembly.Value, values = List.replicate size.toNat (.immediate 0) ∧ d = .data values ∧
      values.flatMap Assembly.Value.references = [] := by
  unfold zeroWords at h
  split at h
  · cases h
  · cases h
    refine ⟨_, rfl, rfl, ?_⟩
    rw [List.flatMap_eq_nil_iff]
    intro v hv
    obtain rfl := List.eq_of_mem_replicate hv
    rfl

/-- What an entry does: it appends code without labels and references, and the label of the frame to
the data. -/
def Opens (frame : Frame) (x : Gen Unit) : Prop :=
  ∀ r u r', x r = .ok u r' → r'.frame = r.frame ∧
    (∃ code, r'.code.toList = r.code.toList ++ code ∧ labels code = [] ∧ references code = []) ∧
    labels r'.data.toList = labels r.data.toList ++ frame.labels ∧
    references r'.data.toList = references r.data.toList

/-- The entry of a frame on the stack brings no label with it. -/
theorem opens_enterStack (f : StackFrame) : Opens (.stack f) (enterStack f) := by
  intro r u r' h
  obtain ⟨⟨hframe, hdata⟩, hcode⟩ := Quiet.enterStack f r u r' h
  exact ⟨hframe, hcode, by rw [hdata]; exact (List.append_nil _).symm, by rw [hdata]⟩

/-- The entry of the initializing routine brings the block of temporaries into the data. -/
theorem opens_enterBlock (label : String) (size : Int) :
    Opens (.block label size) (enterBlock label size) := by
  intro r u r' h
  unfold enterBlock at h
  obtain ⟨_, r₁, hfirst, hrest⟩ := bind_ok.1 h
  rw [get_bind_ok] at hrest
  obtain ⟨_, r₂, hsaved, hlast⟩ := bind_ok.1 hrest
  obtain ⟨⟨hframe, hdata⟩, hcode⟩ := Quiet.bind (.pushWord .result)
    (fun _ => .forM .pushWord r₁.pool.calleeSaveUsed) r _ r₂ (bind_ok.2 ⟨_, r₁, hfirst, hsaved⟩)
  by_cases hsize : 0 < size
  · simp only [if_pos hsize, bind_ok, orFault_ok, modify_ok] at hlast
    obtain ⟨block, _, ⟨hblock, rfl⟩, rfl⟩ := hlast
    obtain ⟨values, -, rfl, hvalues⟩ := zeroWords_ok hblock
    refine ⟨hframe, hcode, ?_, ?_⟩
    · simp [hdata, Frame.labels, hsize]
    · simp [hdata, Assembly.Directive.references, hvalues]
  · simp only [if_neg hsize, pure_ok] at hlast
    obtain ⟨-, rfl⟩ := hlast
    exact ⟨hframe, hcode, by simp [hdata, Frame.labels, hsize], by rw [hdata]⟩

/-- A frame is entered with its own label at most, and left quietly. -/
theorem Encloses.quiet {frame : Frame} {enter leave : Gen Unit} (h : Encloses frame enter leave) :
    Opens frame enter ∧ Quiet leave := by
  cases h with
  | stack f => exact ⟨opens_enterStack f, .exitStack f⟩
  | block label size => exact ⟨opens_enterBlock label size, .exitBlock⟩

/-- A completed routine defines its name, the labels of its body and its exit, and refers to what its
body refers to. -/
theorem finish_labels {r r' : Routine} {code : List Directive} (h : finish r = .ok code r') :
    r'.frame = r.frame ∧ labels code = r.name :: (labels r.code.toList ++ [r.exit]) ∧
      references code = references r.code.toList ∧
      labels r'.data.toList = labels r.data.toList ++ r.frame.labels ∧
      references r'.data.toList = references r.data.toList := by
  obtain ⟨enter, leave, hencloses, r₀, r₁, hcode₀, -, -, hdata₀, hframe₀, henter, hleave, rfl⟩ := finish_cases h
  obtain ⟨hopens, hquiet⟩ := hencloses.quiet
  obtain ⟨hframe, ⟨entry, hentry, hlabels, hrefs⟩, hdata⟩ := hopens r₀ () r₁ henter
  obtain ⟨⟨hframe', hdata'⟩, last, hlast, hlabels', hrefs'⟩ := hquiet _ () r' hleave
  rw [hdata', Routine.plus_data]
  rw [hdata₀] at hdata
  refine ⟨by rw [hframe', Routine.plus_frame, hframe, hframe₀], ?_, ?_, hdata⟩
  · simp [hlast, hentry, hcode₀, hlabels, hlabels']
  · simp [hlast, hentry, hcode₀, hrefs, hrefs']

/-! ## Families of labels -/

/-- The labels of a completed routine: its name, its exit, and numbered ones. -/
def Family (name : String) (ls : List String) : Prop :=
  ∃ new high, ls.Perm (name :: (name ++ "$exit") :: new) ∧ Made name 0 high new

/-- A routine without code and data. -/
structure Routine.Fresh (r : Routine) : Prop where
  code : r.code = #[]
  data : r.data = #[]
  labels : r.labels = 0

/-- A new routine is fresh. -/
theorem Routine.fresh_create (name : String) (frame : Frame) : (Routine.create name frame).Fresh :=
  ⟨rfl, rfl, rfl⟩

/-- A completed routine defines a family of labels and the label of its frame, and refers to these
or to what is known from elsewhere. -/
theorem finish_family {ext : Set String} {r₀ r r' : Routine} {code : List Directive} (h₀ : r₀.Fresh)
    (he : Emits (insert r₀.exit ext) [] r₀ r) (h : finish r = .ok code r') :
    r'.frame = r.frame ∧ ∃ ls, Family r₀.name ls ∧
      (labels (code ++ r'.data.toList)).Perm (ls ++ r.frame.labels) ∧
      ∀ l ∈ references (code ++ r'.data.toList), l ∈ ls ∨ l ∈ ext := by
  obtain ⟨body, data, new, hbody, hdata, hperm, hmade, hrefs⟩ := he.added
  rw [h₀.code, Array.toList_empty, List.nil_append] at hbody
  rw [h₀.data, Array.toList_empty, List.nil_append] at hdata
  rw [h₀.labels] at hmade
  obtain ⟨hframe, hlabels, hreferences, hlabels', hreferences'⟩ := finish_labels h
  have hexit : r.exit = r₀.exit := by rw [Routine.exit, Routine.exit, he.name]
  have hfamily : Family r₀.name (r₀.name :: (labels body ++ [r₀.exit]) ++ labels data) := by
    refine ⟨new, r.labels, ?_, hmade⟩
    rw [List.cons_append, List.append_assoc]
    refine .cons _ (List.perm_middle.trans (.cons _ ?_))
    change (labels body ++ labels data).Perm new
    rw [← Assembly.labels_append]
    exact hperm
  refine ⟨hframe, _, hfamily, ?_, fun l hl => ?_⟩
  · rw [Assembly.labels_append, hlabels, hlabels', hbody, hdata, he.name, hexit, ← List.append_assoc]
  · rw [Assembly.references_append, hreferences, hreferences', hbody, hdata,
      ← Assembly.references_append] at hl
    rcases hrefs l hl with hl | rfl | hl
    · simp only [Assembly.labels_append, List.mem_append] at hl
      left
      simp only [List.mem_append, List.mem_cons]
      exact hl.imp_left fun hl => .inr (.inl hl)
    · left
      simp
    · exact .inr hl

/-! ## Putting parts together -/

/-- The label of the block of temporaries. -/
def temporariesLabel : String := initializeLabel ++ "$temporaries"

/-- What code outside the routines of a program is known to the initializing routine: besides `ext`,
the block of its temporaries. -/
def initialized (ext : Set String) : Set String :=
  insert (initializeLabel ++ "$exit") (insert temporariesLabel ext)

/-- A routine is completed, and its code and data are put behind those of the others. -/
theorem addRoutine_ok {r r' : Routine} {u u' : Linkage} (h : addRoutine r u = .ok r' u') :
    ∃ code, finish r = .ok code r' ∧ u' = { u with code := u.code ++ code, data := u.data ++ r'.data } := by
  unfold addRoutine at h
  cases hfinish : finish r with
  | error e r' =>
    rw [hfinish] at h
    exact absurd h throw_ok
  | ok code r' =>
    simp only [hfinish, bind_ok, modify_ok, pure_ok] at h
    obtain ⟨-, _, rfl, rfl, rfl⟩ := h
    exact ⟨code, rfl, rfl⟩

/-- Zero words are reserved under the label of a global. -/
theorem addGlobal_ok {name : String} {size : Int} {a : Unit} {u u' : Linkage}
    (h : addGlobal name size u = .ok a u') : ∃ values : List Assembly.Value,
      values = List.replicate size.toNat (.immediate 0) ∧ values.flatMap Assembly.Value.references = [] ∧
        u' = { u with globals := (u.globals.push (.label (symbol name))).push (.data values) } := by
  unfold addGlobal at h
  cases hwords : zeroWords size with
  | error e =>
    rw [hwords] at h
    exact absurd h throw_ok
  | ok d =>
    simp only [hwords, modify_ok] at h
    obtain ⟨values, hvalues, rfl, hrefs⟩ := zeroWords_ok hwords
    exact ⟨values, hvalues, hrefs, h.symm⟩

/-- The initializing routine is replaced by what is built on it. -/
theorem onInitializer_ok {α : Type} {x : Gen α} {a : α} {u u' : Linkage}
    (h : onInitializer x u = .ok a u') : ∃ init, x u.init = .ok a init ∧ u' = { u with init } := by
  unfold onInitializer at h
  split at h
  · next b init hstep =>
    cases h
    exact ⟨_, hstep, rfl⟩
  · cases h

/-- Whatever was built of the initializing routine, it knows its exit and the block of its temporaries. -/
theorem known_initializer {ext : Set String} {r : Routine}
    (h : Emits (initialized ext) [] (.initializer initializeLabel) r) : Known (initialized ext) r := by
  refine Known.of_emits ?_ h
  refine ⟨by decide, Set.mem_insert _ _, by simp [Routine.initializer, Routine.create], ?_⟩
  rintro label size hframe
  simp only [Routine.initializer, Routine.create, Frame.block.injEq] at hframe
  obtain ⟨rfl, -⟩ := hframe
  exact .inr (.inl (by decide))

/-- The frame of the initializing routine stays a block of temporaries. -/
theorem exists_block_of_emits {ext : Set String} {r : Routine}
    (h : Emits ext [] (.initializer initializeLabel) r) : ∃ size, r.frame = .block temporariesLabel size := by
  have hkind := h.kind
  cases hframe : r.frame with
  | stack f =>
    rw [hframe] at hkind
    exact hkind.elim
  | bare =>
    rw [hframe] at hkind
    exact hkind.elim
  | block label size =>
    rw [hframe] at hkind
    have hlabel : label = symbol initializeLabel ++ "$temporaries" := hkind
    exact ⟨size, by rw [hlabel, show symbol initializeLabel = initializeLabel from by decide]; rfl⟩

/-- The parts of a program under construction: families of labels for some routines, labels for some
globals, and references to these and to what is known from elsewhere. -/
structure Linkage.Over (library : Bool) (ext : Set String) (routines globals : List String)
    (u : Linkage) : Prop where
  library : u.library = library
  init : Emits (initialized ext) [] (.initializer initializeLabel) u.init
  routines : ∃ families, List.Forall₂ Family routines families ∧
    (labels (u.code.toList ++ u.data.toList)).Perm families.flatten
  references : ∀ l ∈ references (u.code.toList ++ u.data.toList),
    l ∈ labels (u.code.toList ++ u.data.toList) ∨ l ∈ ext
  globals : labels u.globals.toList = globals
  words : Assembly.references u.globals.toList = []

namespace Linkage.Over

variable {library : Bool} {ext : Set String} {routines globals : List String} {u u' : Linkage}

/-- Nothing was added yet. -/
theorem empty (library : Bool) (ext : Set String) : Over library ext [] [] { library } :=
  ⟨rfl, .refl _ _, ⟨[], .nil, .refl _⟩, by simp, rfl, rfl⟩

/-- A routine brings its family. -/
theorem addRoutine (h : Over library ext routines globals u) {r₀ r r' : Routine} (h₀ : r₀.Fresh)
    (hframe : r.frame.labels = []) (he : Emits (insert r₀.exit ext) [] r₀ r)
    (hrun : Codegen.addRoutine r u = .ok r' u') :
    Over library ext (routines ++ [r₀.name]) globals u' := by
  obtain ⟨code, hfinish, rfl⟩ := addRoutine_ok hrun
  obtain ⟨-, ls, hfamily, hlabels, hrefs⟩ := finish_family h₀ he hfinish
  rw [hframe, List.append_nil] at hlabels
  obtain ⟨families, hfamilies, hperm⟩ := h.routines
  have hall : (labels ((u.code ++ code).toList ++ (u.data ++ r'.data).toList)).Perm
      (labels (u.code.toList ++ u.data.toList) ++ labels (code ++ r'.data.toList)) := by
    simp only [Array.toList_appendList, Array.toList_append, Assembly.labels_append,
      List.append_assoc]
    exact (List.perm_append_comm_assoc _ _ _).append_left _
  refine ⟨h.library, h.init, ⟨families ++ [ls], ?_, ?_⟩, fun l hl => ?_, h.globals, h.words⟩
  · exact List.rel_append hfamilies (.cons hfamily .nil)
  · rw [List.flatten_append, List.flatten_singleton]
    exact hall.trans (hperm.append hlabels)
  · have hmem : l ∈ Assembly.references (u.code.toList ++ u.data.toList) ∨
        l ∈ Assembly.references (code ++ r'.data.toList) := by
      simp only [Array.toList_appendList, Array.toList_append, Assembly.references_append,
        List.mem_append] at hl ⊢
      exact or_or_or_comm.1 hl
    rcases hmem with hl | hl
    · exact (h.references l hl).imp_left fun hl => hall.symm.subset (List.mem_append_left _ hl)
    · exact (hrefs l hl).imp_left fun hl =>
        hall.symm.subset (List.mem_append_right _ (hlabels.symm.subset hl))

/-- A global brings its label. -/
theorem addGlobal (h : Over library ext routines globals u) {name : String} {size : Int} {a : Unit}
    (hrun : Codegen.addGlobal name size u = .ok a u') :
    Over library ext routines (globals ++ [symbol name]) u' := by
  obtain ⟨values, -, hvalues, rfl⟩ := addGlobal_ok hrun
  refine ⟨h.library, h.init, h.routines, h.references, ?_, ?_⟩
  · simp [h.globals]
  · simp [h.words, Assembly.Directive.references, hvalues]

/-- The initializing routine knows its exit and the block of its temporaries. -/
theorem known_init (h : Over library ext routines globals u) : Known (initialized ext) u.init :=
  known_initializer h.init

/-- The initializing routine is built further. -/
theorem onInitializer (h : Over library ext routines globals u) {x : Gen Unit} {a : Unit}
    (hx : Writes (initialized ext) [] x) (hrun : Codegen.onInitializer x u = .ok a u') :
    Over library ext routines globals u' := by
  obtain ⟨init, hstep, rfl⟩ := onInitializer_ok hrun
  exact ⟨h.library, h.init.trans (hx _ _ _ h.known_init hstep), h.routines, h.references, h.globals,
    h.words⟩

end Linkage.Over

/-! ## The start -/

/-- The code by which the start calls the routine at a label and goes on behind it. -/
def startCallCode (target back : String) : List Directive :=
  [.constant scratchFrame (.reference (symbol target)), .constant .result (.reference (symbol back)),
    Machine.ins .jmp [scratchFrame], .label back]

/-- Calling the routine of the start appends its code and one new label. -/
theorem startCall_ok {target : String} {r r' : Routine} {u : Unit}
    (h : startCall target r = .ok u r') :
    r' = (r.withLabels (r.labels + 1)).plus
      (startCallCode target (madeLabel r.name "return" (r.labels + 1))) := by
  simp only [startCall, newLabel_front, loadAddress_front, emit_front, placeLabel_ok,
    Routine.plus_plus] at h
  exact h.2.symm

/-- How the start ends. -/
def stopCode (result : Result) : List Directive :=
  (if result.size < 0 then [.constant .result (.immediate 0)] else []) ++ [Machine.ins .halt []]

/-- The start calls the initializing routine and the entry point, one behind the other, and stops. -/
theorem startCode_ok {entry : String} {result : Result} {code : List Directive}
    (h : startCode entry result = .ok code) :
    code = .label startLabel :: (startCallCode initializeLabel (madeLabel startLabel "return" 1) ++
      (startCallCode entry (madeLabel startLabel "return" 2) ++ stopCode result)) := by
  have hname : symbol startLabel = startLabel := by decide
  unfold startCode at h
  split at h
  · next u r hstart =>
    cases h
    simp only [start, get_bind_ok, placeLabel_front] at hstart
    obtain ⟨_, r₁, hfirst, hrest⟩ := bind_ok.1 hstart
    obtain ⟨_, r₂, hsecond, hlast⟩ := bind_ok.1 hrest
    obtain rfl := startCall_ok hfirst
    obtain rfl := startCall_ok hsecond
    by_cases hsize : result.size < 0
    · simp only [if_pos hsize, bind_ok, loadWord_ok, emit_ok] at hlast
      obtain ⟨-, _, rfl, -, rfl⟩ := hlast
      simp [Routine.create, hname, stopCode, hsize]
    · simp only [if_neg hsize, emit_ok] at hlast
      obtain ⟨-, rfl⟩ := hlast
      simp [Routine.create, hname, stopCode, hsize]
  · cases h

/-- The start defines its own labels, and refers to these, to the initializing routine and to the entry
point. -/
theorem startCode_labels {entry : String} {result : Result} {code : List Directive}
    (h : startCode entry result = .ok code) :
    (∃ new, labels code = startLabel :: new ∧ Made startLabel 0 2 new) ∧
      ∀ l ∈ references code, l ∈ labels code ∨ l = initializeLabel ∨ l = symbol entry := by
  obtain rfl := startCode_ok h
  have hlast : labels (stopCode result) = [] ∧ references (stopCode result) = [] := by
    unfold stopCode
    split <;> exact ⟨rfl, rfl⟩
  obtain ⟨hlabels, hrefs⟩ := hlast
  have hmade : Made startLabel 0 2
      [madeLabel startLabel "return" 1, madeLabel startLabel "return" 2] :=
    (Made.singleton (by decide) 0).append (Made.singleton (by decide) 1) (by omega) (by omega)
  have hsymbol (n : Nat) : symbol (madeLabel startLabel "return" n) = madeLabel startLabel "return" n :=
    symbol_newLabel (by decide) (by decide) n
  have hinit : symbol initializeLabel = initializeLabel := by decide
  refine ⟨⟨_, ?_, hmade⟩, fun l hl => ?_⟩
  · simp [startCallCode, hlabels]
  · simp [startCallCode, hlabels, hrefs, hsymbol, hinit] at hl ⊢
    obtain hl | hl | hl | hl := hl
    · exact .inr (.inl hl)
    · exact .inl (.inr (.inl hl))
    · exact .inr (.inr hl)
    · exact .inl (.inr (.inr hl))

/-! ## Linking -/

/-- A linked program is the start, unless it is a library, the initializing routine, the other
routines, the globals and the data. -/
theorem link_ok {entry : String} {result : Result} {ds : List Directive} {u u' : Linkage}
    (h : link entry result u = .ok ds u') :
    ∃ front code, finish u.init = .ok code u'.init ∧
      (u.library = true ∧ front = [] ∨ u.library = false ∧ startCode entry result = .ok front) ∧
      ds = front ++ code ++ u.code.toList ++ u.globals.toList ++ u.data.toList ++
        u'.init.data.toList := by
  have hrest {front : List Directive} {v : Linkage} (hv : v = { u with linked := true })
      (hrun : (onInitializer finish >>= fun init => get >>= fun u => pure (front ++ init ++
        u.code.toList ++ u.globals.toList ++ u.data.toList ++ u.init.data.toList)) v = .ok ds u') :
      ∃ code, finish u.init = .ok code u'.init ∧ ds = front ++ code ++ u.code.toList ++
        u.globals.toList ++ u.data.toList ++ u'.init.data.toList := by
    subst hv
    obtain ⟨code, v, hinit, hlast⟩ := bind_ok.1 hrun
    rw [get_bind_ok] at hlast
    obtain ⟨rfl, rfl⟩ := pure_ok.1 hlast
    simp only [onInitializer] at hinit
    split at hinit
    · next code r hfinish =>
      cases hinit
      exact ⟨_, hfinish, rfl⟩
    · cases hinit
  simp only [link, guard_ok, bind_ok, modify_ok, get_ok] at h
  obtain ⟨_, _, ⟨rfl, rfl⟩, -, _, _, rfl, _, _, ⟨rfl, rfl⟩, h⟩ := h
  split at h
  · next hlibrary =>
    obtain ⟨_, _, hfront, h⟩ := bind_ok.1 h
    obtain ⟨rfl, rfl⟩ := pure_ok.1 hfront
    obtain ⟨code, hfinish, hds⟩ := hrest rfl h
    exact ⟨[], code, hfinish, .inl ⟨hlibrary, rfl⟩, hds⟩
  · next hlibrary =>
    cases hstart : startCode entry result with
    | ok front =>
      rw [hstart] at h
      obtain ⟨_, _, hfront, h⟩ := bind_ok.1 h
      obtain ⟨rfl, rfl⟩ := pure_ok.1 hfront
      obtain ⟨code, hfinish, hds⟩ := hrest rfl h
      exact ⟨front, code, hfinish, .inr ⟨by simpa using hlibrary, rfl⟩, hds⟩
    | error e =>
      rw [hstart] at h
      obtain ⟨_, _, hfront, -⟩ := bind_ok.1 h
      exact absurd hfront throw_ok

/-- The labels of a linked program are those of its parts. A reference that is not to one of them is
to what is known from elsewhere, to the entry point or to the block of temporaries. -/
theorem link_labels {library : Bool} {ext : Set String} {routines globals : List String}
    {u u' : Linkage} {entry : String} {result : Result} {ds : List Directive}
    (h : u.Over library ext routines globals)
    (hrun : link entry result u = .ok ds u') :
    (∃ size, u'.init.frame = .block temporariesLabel size) ∧ ∃ front init families,
      (front = [] ∨ ∃ new, front = startLabel :: new ∧ Made startLabel 0 2 new) ∧
      Family initializeLabel init ∧ List.Forall₂ Family routines families ∧
      (labels ds).Perm (front ++ (init ++ (families.flatten ++ (globals ++ u'.init.frame.labels)))) ∧
      ∀ l ∈ references ds, l ∈ labels ds ∨ l ∈ ext ∨ (library = false ∧ l = symbol entry) ∨
        l = temporariesLabel := by
  obtain ⟨front, code, hfinish, hfront, rfl⟩ := link_ok hrun
  have hinit : Emits (insert (Routine.initializer initializeLabel).exit (insert temporariesLabel ext)) []
      (.initializer initializeLabel) u.init := h.init
  obtain ⟨hframe, init, hinit, hlabels, hrefs⟩ :=
    finish_family (Routine.fresh_create initializeLabel _) hinit hfinish
  obtain ⟨families, hfamilies, hperm⟩ := h.routines
  rw [show (Routine.create initializeLabel _).name = initializeLabel from by decide] at hinit
  rw [← hframe] at hlabels
  have hkind : ∃ size, u'.init.frame = .block temporariesLabel size := by
    rw [hframe]
    exact exists_block_of_emits h.init
  have hstart : (labels front = [] ∨ ∃ new, labels front = startLabel :: new ∧ Made startLabel 0 2 new) ∧
      ∀ l ∈ references front, l ∈ labels front ∨ l = initializeLabel ∨
        (library = false ∧ l = symbol entry) := by
    rw [h.library] at hfront
    obtain ⟨-, rfl⟩ | ⟨hlibrary, hstart⟩ := hfront
    · exact ⟨.inl rfl, by simp⟩
    · obtain ⟨hnew, hrefs⟩ := startCode_labels hstart
      exact ⟨.inr hnew, fun l hl => (hrefs l hl).imp_right (Or.imp_right fun h => ⟨hlibrary, h⟩)⟩
  have hall : (labels (front ++ code ++ u.code.toList ++ u.globals.toList ++ u.data.toList ++
      u'.init.data.toList)).Perm (labels front ++ (init ++ (families.flatten ++ (globals ++
        u'.init.frame.labels)))) := by
    rw [List.perm_iff_count] at hlabels hperm ⊢
    intro l
    have hinit := hlabels l
    have hcode := hperm l
    simp only [Assembly.labels_append, List.count_append, h.globals] at hinit hcode ⊢
    omega
  refine ⟨hkind, labels front, init, families, hstart.1, hinit, hfamilies, hall, fun l hl => ?_⟩
  have hmem : l ∈ references front ∨ l ∈ references (code ++ u'.init.data.toList) ∨
      l ∈ references (u.code.toList ++ u.data.toList) := by
    simp only [Assembly.references_append, List.mem_append, h.words, List.not_mem_nil, or_false] at hl ⊢
    obtain (((hl | hl) | hl) | hl) | hl := hl
    · exact .inl hl
    · exact .inr (.inl (.inl hl))
    · exact .inr (.inr (.inl hl))
    · exact .inr (.inr (.inr hl))
    · exact .inr (.inl (.inr hl))
  have hdefined : initializeLabel ∈ init := by
    obtain ⟨new, high, hnew, -⟩ := hinit
    exact hnew.symm.subset (by simp)
  rw [hall.mem_iff]
  simp only [List.mem_append]
  rcases hmem with hl | hl | hl
  · rcases hstart.2 l hl with hl | rfl | hl
    · exact .inl (.inl hl)
    · exact .inl (.inr (.inl hdefined))
    · exact .inr (.inr (.inl hl))
  · rcases hrefs l hl with hl | rfl | hl
    · exact .inl (.inr (.inl hl))
    · exact .inr (.inr (.inr rfl))
    · exact .inr (.inl hl)
  · rcases h.references l hl with hl | hl
    · exact .inl (.inr (.inr (.inl (hperm.subset hl))))
    · exact .inr (.inl hl)

end Qll.Codegen
