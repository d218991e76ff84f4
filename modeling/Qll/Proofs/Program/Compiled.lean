import Qll.Program.Compile
import Qll.Proofs.Check.World
import Qll.Proofs.Codegen.Linked
import Qll.Proofs.Program.Liveness

/-!
# Labels of compiled programs

The live declarations of a checked program are compiled one by one. Each brings its labels, and
refers to live declarations only, because whatever its checked body names was recorded and the live
names are closed under what is recorded.
-/

namespace Qll.Program

open Check (State GlobalItem FunctionItem World Storage)
open Codegen (Shapes LinkM Linkage Routine Frame Writes Known Emits symbol)
open Qll.Computation

/-- The labels of some declarations. -/
def symbols (names : List String) : Set String := { l | ∃ q ∈ names, l = symbol q }

/-- The label of a listed name is one of the labels. -/
theorem symbol_mem_symbols {q : String} {names : List String} (h : q ∈ names) :
    symbol q ∈ symbols names := ⟨q, h, rfl⟩

/-- The globals of a program that are live. -/
def liveGlobals (s : State) (live : List String) : List GlobalItem :=
  s.globals.toList.filter fun g => live.contains g.qualified

/-- The functions of a program that are live. -/
def liveFunctions (s : State) (live : List String) : List FunctionItem :=
  s.functions.toList.filter fun f => live.contains f.qualified

/-- Live names are closed under the references of live declarations. -/
structure LiveClosed (s : State) (live : List String) : Prop where
  globals : ∀ g ∈ s.globals, g.qualified ∈ live → ∀ q ∈ g.references, q ∈ s.nodes → q ∈ live
  functions : ∀ f ∈ s.functions, f.qualified ∈ live → ∀ q ∈ f.references, q ∈ s.nodes → q ∈ live

section Parts

variable {w : World} {live : List String} {u u' : Linkage} {library : Bool} {rs gs : List String}

/-- What is recorded of a live declaration is live. -/
theorem staticIn_symbols {refs : List String} {ext : Set String} (hext : symbols live ⊆ ext)
    (hclosed : ∀ q ∈ refs, q ∈ w.nodes → q ∈ live) (st : Storage)
    (hst : w.Recorded { q | q ∈ refs } st) : Writes.StaticIn ext st :=
  fun hstatic => hext (symbol_mem_symbols (hclosed _ (hst hstatic).1 (hst hstatic).2))

/-- A global gets its words, and then its initial value is stored, if it has one. -/
theorem compileGlobal_ok {g : GlobalItem} {shapes : Shapes} (h : compileGlobal shapes g u = .ok () u') :
    ∃ size u₁, shapes.size g.storage.type = .ok size ∧ Codegen.addGlobal g.qualified size u = .ok () u₁ ∧
      (g.checked = none ∧ g.init = none ∧ u' = u₁ ∨ ∃ value, g.checked = some value ∧
        Codegen.onInitializer (storeInitial shapes g value) u₁ = .ok () u') := by
  unfold compileGlobal at h
  cases hsize : shapes.size g.storage.type with
  | error e =>
    rw [hsize] at h
    obtain ⟨_, _, hthrow, -⟩ := bind_ok.1 h
    exact absurd hthrow throw_ok
  | ok size =>
    rw [hsize] at h
    obtain ⟨_, u₁, hadd, hrest⟩ := bind_ok.1 h
    refine ⟨size, u₁, rfl, hadd, ?_⟩
    cases hchecked : g.checked with
    | none =>
      rw [hchecked] at hrest
      dsimp only at hrest
      split at hrest
      · exact absurd hrest throw_ok
      · next hinit =>
        obtain ⟨-, rfl⟩ := pure_ok.1 hrest
        exact .inl ⟨rfl, by simpa using hinit, rfl⟩
    | some value =>
      rw [hchecked] at hrest
      exact .inr ⟨value, rfl, hrest⟩

/-- The code of an initial value refers to its global and to what is recorded of it. -/
theorem writes_storeInitial {g : GlobalItem} {shapes : Shapes} {value : Checked.Expr}
    (hg : w.SoundGlobal g) (hchecked : g.checked = some value) (hlive : g.qualified ∈ live)
    (hclosed : ∀ q ∈ g.references, q ∈ w.nodes → q ∈ live) :
    Writes (Codegen.initialized (symbols live)) [] (storeInitial shapes g value) := by
  have hext : symbols live ⊆ Codegen.initialized (symbols live) := fun l hl => .inr (.inr hl)
  have hself : Writes.StaticIn (Codegen.initialized (symbols live)) g.storage := fun _ => by
    rw [hg.storage.2]
    exact hext (symbol_mem_symbols hlive)
  refine .statement (.seq (Codegen.writes_compileExpr shapes (staticIn_symbols hext hclosed) value false
    (hg.checked value hchecked)) fun v => .seq (.address hself) fun addr => ?_)
  exact .seq (.storeValue _ _ _ _) fun _ => .seq (.release addr) fun _ => .release v

/-- A global brings its label, and its initial value refers to live declarations. -/
theorem over_compileGlobal {g : GlobalItem} {shapes : Shapes} (hg : w.SoundGlobal g)
    (hlive : g.qualified ∈ live) (hclosed : ∀ q ∈ g.references, q ∈ w.nodes → q ∈ live)
    (hu : u.Over library (symbols live) rs gs) (hrun : compileGlobal shapes g u = .ok () u') :
    u'.Over library (symbols live) rs (gs ++ [symbol g.qualified]) := by
  obtain ⟨size, u₁, -, hadd, hrest⟩ := compileGlobal_ok hrun
  have hu₁ := hu.addGlobal hadd
  obtain ⟨-, -, rfl⟩ | ⟨value, hchecked, hinit⟩ := hrest
  · exact hu₁
  · exact hu₁.onInitializer (writes_storeInitial hg hchecked hlive hclosed) hinit

/-- The routine of a function starts empty, under the label of the function and with a frame on the
stack. -/
theorem emptyRoutine_ok {f : FunctionItem} {shapes : Shapes} {r : Routine}
    (h : emptyRoutine shapes f = .ok r) : ∃ frame, r = .create f.qualified (.stack frame) := by
  unfold emptyRoutine at h
  split at h
  · cases h
    exact ⟨_, rfl⟩
  · obtain ⟨params, -, h⟩ := except_bind_ok.1 h
    obtain ⟨result, -, h⟩ := except_bind_ok.1 h
    cases h
    exact ⟨_, rfl⟩

/-- The body of a function is compiled into its empty routine, which is then added. -/
theorem compileFunction_ok {f : FunctionItem} {shapes : Shapes}
    (h : compileFunction shapes f u = .ok () u') : ∃ frame body r r',
      emptyRoutine shapes f = .ok (.create f.qualified (.stack frame)) ∧ f.checked = some body ∧
        Codegen.compileStmts shapes body (.create f.qualified (.stack frame)) = .ok () r ∧
        Codegen.addRoutine r u = .ok r' u' := by
  unfold compileFunction at h
  cases hempty : emptyRoutine shapes f with
  | error e =>
    rw [hempty] at h
    exact absurd h throw_ok
  | ok r₀ =>
    obtain ⟨frame, rfl⟩ := emptyRoutine_ok hempty
    cases hchecked : f.checked with
    | none =>
      rw [hempty, hchecked] at h
      exact absurd h throw_ok
    | some body =>
      rw [hempty, hchecked] at h
      dsimp only at h
      cases hbody : Codegen.compileStmts shapes body (.create f.qualified (.stack frame)) with
      | error e r =>
        rw [hbody] at h
        exact absurd h throw_ok
      | ok a r =>
        rw [hbody] at h
        obtain ⟨r', hadd, -⟩ := map_ok.1 h
        exact ⟨frame, body, r, r', rfl, rfl, hbody, hadd⟩

/-- The code of a body refers to what is recorded of its function. -/
theorem emits_body {f : FunctionItem} {shapes : Shapes} {frame : Codegen.StackFrame}
    {body : List Checked.Stmt} {r : Routine} (hf : w.SoundFunction f) (hchecked : f.checked = some body)
    (hclosed : ∀ q ∈ f.references, q ∈ w.nodes → q ∈ live)
    (hbody : Codegen.compileStmts shapes body (.create f.qualified (.stack frame)) = .ok () r) :
    Emits (insert (Routine.create f.qualified (.stack frame)).exit (symbols live)) []
      (.create f.qualified (.stack frame)) r := by
  have hknown : Known (insert (Routine.create f.qualified (.stack frame)).exit (symbols live))
      (.create f.qualified (.stack frame)) :=
    ⟨Codegen.symbol_symbol _, Set.mem_insert _ _, by simp [Routine.create], by simp [Routine.create]⟩
  exact Codegen.writes_compileStmts shapes (staticIn_symbols (Set.subset_insert _ _) hclosed) body
    (hf.checked body hchecked) _ _ _ hknown hbody

/-- The frame of a routine that starts with a frame on the stack stays on the stack. -/
theorem exists_stack_of_emits {ext : Set String} {name : String} {frame : Codegen.StackFrame} {r : Routine}
    (h : Emits ext [] (.create name (.stack frame)) r) : ∃ frame', r.frame = .stack frame' := by
  have hkind := h.kind
  cases hframe : r.frame with
  | stack f => exact ⟨f, rfl⟩
  | bare =>
    rw [hframe] at hkind
    exact hkind.elim
  | block label size =>
    rw [hframe] at hkind
    exact hkind.elim

/-- A function brings its family of labels, and its body refers to live declarations. -/
theorem over_compileFunction {f : FunctionItem} {shapes : Shapes} (hf : w.SoundFunction f)
    (hclosed : ∀ q ∈ f.references, q ∈ w.nodes → q ∈ live) (hu : u.Over library (symbols live) rs gs)
    (hrun : compileFunction shapes f u = .ok () u') :
    u'.Over library (symbols live) (rs ++ [symbol f.qualified]) gs := by
  obtain ⟨frame, body, r, r', -, hchecked, hbody, hadd⟩ := compileFunction_ok hrun
  have hemits := emits_body hf hchecked hclosed hbody
  obtain ⟨frame', hframe⟩ := exists_stack_of_emits hemits
  refine hu.addRoutine (Routine.fresh_create _ _) ?_ hemits hadd
  rw [hframe]
  rfl

/-- Live globals bring their labels. -/
theorem over_globals {shapes : Shapes} {items : List GlobalItem}
    (hitems : ∀ g ∈ items, w.SoundGlobal g ∧ g.qualified ∈ live ∧
      ∀ q ∈ g.references, q ∈ w.nodes → q ∈ live) (hu : u.Over library (symbols live) rs gs)
    (hrun : (items.forM (compileGlobal shapes) : LinkM Unit) u = .ok () u') :
    u'.Over library (symbols live) rs (gs ++ items.map fun g => symbol g.qualified) := by
  induction items generalizing u gs with
  | nil =>
    obtain ⟨-, rfl⟩ := pure_ok.1 hrun
    simpa using hu
  | cons g items ih =>
    obtain ⟨_, u₁, hfirst, hrest⟩ := bind_ok.1 hrun
    obtain ⟨⟨hg, hlive, hclosed⟩, hitems⟩ := List.forall_mem_cons.1 hitems
    have hu' := ih hitems (over_compileGlobal hg hlive hclosed hu hfirst) hrest
    rwa [List.append_assoc] at hu'

/-- Live functions bring their families of labels. -/
theorem over_functions {shapes : Shapes} {items : List FunctionItem}
    (hitems : ∀ f ∈ items, w.SoundFunction f ∧ ∀ q ∈ f.references, q ∈ w.nodes → q ∈ live)
    (hu : u.Over library (symbols live) rs gs)
    (hrun : (items.forM (compileFunction shapes) : LinkM Unit) u = .ok () u') :
    u'.Over library (symbols live) (rs ++ items.map fun f => symbol f.qualified) gs := by
  induction items generalizing u rs with
  | nil =>
    obtain ⟨-, rfl⟩ := pure_ok.1 hrun
    simpa using hu
  | cons f items ih =>
    obtain ⟨_, u₁, hfirst, hrest⟩ := bind_ok.1 hrun
    obtain ⟨⟨hf, hclosed⟩, hitems⟩ := List.forall_mem_cons.1 hitems
    have hu' := ih hitems (over_compileFunction hf hclosed hu hfirst) hrest
    rwa [List.append_assoc] at hu'

end Parts

/-- Live declarations are compiled one by one, the globals first. -/
theorem compilations_ok {s : State} {live : List String} {u u' : Linkage}
    (h : ((compilations s live).forM (fun p => p.2) : LinkM Unit) u = .ok () u') :
    ∃ u₁, ((liveGlobals s live).forM (compileGlobal (.ofStore s.types)) : LinkM Unit) u = .ok () u₁ ∧
      ((liveFunctions s live).forM (compileFunction (.ofStore s.types)) : LinkM Unit) u₁ = .ok () u' := by
  have hparts : ((liveGlobals s live).forM (compileGlobal (.ofStore s.types)) >>= fun _ =>
      (liveFunctions s live).forM (compileFunction (.ofStore s.types)) : LinkM Unit) u = .ok () u' := by
    simp only [compilations, List.forM_eq_forM, List.forM_append, List.forM_map] at h
    exact h
  obtain ⟨_, u₁, hglobals, hfunctions⟩ := bind_ok.1 hparts
  exact ⟨u₁, hglobals, hfunctions⟩

/-- The live declarations of a sound program bring their labels, and refer to live declarations. -/
theorem over_compilations {w : World} {s : State} {live : List String} {library : Bool} {u : Linkage}
    (hs : w.Sound s) (hnodes : w.nodes = { q | q ∈ s.nodes }) (hclosed : LiveClosed s live)
    (hrun : ((compilations s live).forM (fun p => p.2) : LinkM Unit) { library } = .ok () u) :
    u.Over library (symbols live) ((liveFunctions s live).map fun f => symbol f.qualified)
      ((liveGlobals s live).map fun g => symbol g.qualified) := by
  obtain ⟨u₁, hglobals, hfunctions⟩ := compilations_ok hrun
  have hfunction (f : FunctionItem) (hf : f ∈ liveFunctions s live) :
      w.SoundFunction f ∧ ∀ q ∈ f.references, q ∈ w.nodes → q ∈ live := by
    obtain ⟨hmem, hlive⟩ := List.mem_filter.1 hf
    rw [Array.mem_toList_iff] at hmem
    rw [hnodes]
    exact ⟨hs.functions f hmem, hclosed.functions f hmem (by simpa using hlive)⟩
  have hglobal (g : GlobalItem) (hg : g ∈ liveGlobals s live) : w.SoundGlobal g ∧
      g.qualified ∈ live ∧ ∀ q ∈ g.references, q ∈ w.nodes → q ∈ live := by
    obtain ⟨hmem, hlive⟩ := List.mem_filter.1 hg
    rw [Array.mem_toList_iff] at hmem
    have hlive : g.qualified ∈ live := by simpa using hlive
    rw [hnodes]
    exact ⟨hs.globals g hmem, hlive, hclosed.globals g hmem hlive⟩
  have hu := over_functions hfunction (over_globals hglobal (.empty library _) hglobals) hfunctions
  simpa using hu

/-- The graph of a program has its declarations as nodes. -/
theorem has_of_mem_nodes {s : State} {g : Graph} (hg : g.nodes = routines s) {q : String} :
    g.has q = true ↔ q ∈ s.nodes := by
  rw [Graph.has_iff, hg]
  simp [routines, State.nodes, or_and_right, exists_or]

/-- What the graph of a program finds live is closed under references. -/
theorem closed_solve {s : State} {g : Graph} (hg : g.nodes = routines s) (extra : List String) :
    LiveClosed s (g.solve extra) := by
  have hsolve : g.ClosedOn g.nodes (g.solve extra) := Graph.closed_solve
  rw [hg] at hsolve
  refine ⟨fun i hi hlive q hq hnode => ?_, fun i hi hlive q hq hnode => ?_⟩
  · exact hsolve _ (List.mem_append_left _ (List.mem_map_of_mem (Array.mem_toList_iff.2 hi))) hlive q hq
      ((has_of_mem_nodes hg).2 hnode)
  · exact hsolve _ (List.mem_append_right _ (List.mem_map_of_mem (Array.mem_toList_iff.2 hi))) hlive q hq
      ((has_of_mem_nodes hg).2 hnode)

end Qll.Program
