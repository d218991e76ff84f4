import Qll.Compilation.Run
import Qll.Proofs.Program.Checked
import Qll.Proofs.Program.Compiled

/-!
# What the stages of a compilation did

A compilation that ends with directives ran all its stages, each on what the stage before left. So
the program was declared and checked without errors, the live names were found in its graph, the live
declarations were compiled, and the result was linked.
-/

namespace Qll.Compilation

open Assembly (Directive)
open Check (State FunctionItem)
open Codegen (LinkM Linkage)
open Qll.Computation

variable {r r' : Run} {α β : Type}

/-- Two states of a compilation that agree in what later stages read. -/
structure Kept (r r' : Run) : Prop where
  units : r'.units = r.units
  options : r'.options = r.options
  program : r'.program = r.program
  live : r'.live = r.live
  entry : r'.entry = r.entry

/-- A run agrees with itself. -/
theorem Kept.refl (r : Run) : Kept r r := ⟨rfl, rfl, rfl, rfl, rfl⟩

/-- Agreement in what later stages read is transitive. -/
theorem Kept.trans {r₁ : Run} (h : Kept r r₁) (h' : Kept r₁ r') : Kept r r' :=
  ⟨h'.units.trans h.units, h'.options.trans h.options, h'.program.trans h.program,
    h'.live.trans h.live, h'.entry.trans h.entry⟩

/-! ## Steps -/

/-- The checker runs on the program. -/
theorem onProgram_ok {x : Check.CheckM α} {a : α} (h : onProgram x r = .ok a r') :
    ∃ s, x Program.directory r.program = .ok a s ∧ r' = r.adopt s := by
  unfold onProgram at h
  split at h
  · next hx =>
    cases h
    exact ⟨_, hx, rfl⟩
  · cases h

/-- Work on the linkage changes nothing else. -/
theorem onLinkage_ok {x : LinkM α} {a : α} (h : onLinkage x r = .ok a r') :
    ∃ u, x r.linkage = .ok a u ∧ r' = { r with linkage := u } := by
  unfold onLinkage at h
  split at h
  · next hx =>
    cases h
    exact ⟨_, hx, rfl⟩
  · cases h

/-- A span of the trace is around its work. -/
theorem spanned_ok {scope : Trace.Scope} {name : String} {parent : Nat} {work : StageM String}
    {u : Unit} (h : spanned scope name parent work r = .ok u r') :
    ∃ trace detail r₁ trace', work { r with trace } = .ok detail r₁ ∧
      r' = { r₁ with trace := trace' } := by
  simp only [spanned, bind_ok, get_ok, set_ok, modify_ok] at h
  obtain ⟨_, _, ⟨rfl, rfl⟩, _, _, rfl, detail, r₁, hwork, rfl⟩ := h
  exact ⟨_, detail, r₁, _, hwork, rfl⟩

/-- Telling the sizes of tables changes nothing. -/
theorem counts_ok {text : String} (h : counts r = .ok text r') : r' = r := by
  simp only [counts, get_bind_ok, pure_ok] at h
  exact h.2.symm

/-- The checker runs, and its reports are counted. -/
theorem checks_ok {x : Check.CheckM Unit} {text : String}
    (h : (onProgram x >>= fun _ => counts) r = .ok text r') :
    ∃ s, x Program.directory r.program = .ok () s ∧ r' = r.adopt s := by
  obtain ⟨_, r₁, hcheck, hcounts⟩ := bind_ok.1 h
  obtain rfl := counts_ok hcounts
  exact onProgram_ok hcheck

/-! ## Checking -/

/-- All units are declared together, and names are bound. -/
theorem bindStage_ok {parent : Nat} {text : String} (h : bindStage parent r = .ok text r') :
    ∃ r₀ s₀ s₁, Kept r r₀ ∧ r₀.bag = r.bag ∧
      Program.declareProgram (r.units.flatMap (·.decls)) Program.directory r.program = .ok () s₀ ∧
      Program.bind Program.directory s₀ = .ok () s₁ ∧ r' = (r₀.adopt s₀).adopt s₁ := by
  have hspans {units : List Interchange.LoadedUnit} {r r' : Run} {u : Unit}
      (h : (units.forM fun u => spanned .unit u.path parent (do
        return Nat.repr u.decls.length ++ " declarations") : StageM Unit) r = .ok u r') :
      Kept r r' ∧ r'.bag = r.bag := by
    induction units generalizing r with
    | nil =>
      obtain ⟨-, rfl⟩ := pure_ok.1 h
      exact ⟨.refl r, rfl⟩
    | cons unit units ih =>
      obtain ⟨_, r₁, hfirst, hrest⟩ := bind_ok.1 h
      obtain ⟨_, _, _, _, hwork, rfl⟩ := spanned_ok hfirst
      obtain ⟨-, rfl⟩ := pure_ok.1 hwork
      obtain ⟨hkept, hbag⟩ := ih hrest
      refine ⟨Kept.trans ?_ hkept, hbag⟩
      exact ⟨rfl, rfl, rfl, rfl, rfl⟩
  simp only [bindStage, bind_ok, get_ok] at h
  obtain ⟨_, _, ⟨rfl, rfl⟩, _, r₁, hunits, _, r₂, hdeclare, _, r₃, hbind, hlast⟩ := h
  obtain ⟨-, rfl⟩ := pure_ok.1 hlast
  obtain ⟨hkept, hbag⟩ := hspans hunits
  obtain ⟨s₀, hdeclared, rfl⟩ := onProgram_ok hdeclare
  obtain ⟨s₁, hbound, rfl⟩ := onProgram_ok hbind
  rw [hkept.program] at hdeclared
  exact ⟨r₁, s₀, s₁, hkept, hbag, hdeclared, hbound, rfl⟩

/-- Names are bound if the declarations can be entered and bound. -/
theorem bindStage_runs {s₀ s₁ : State} (parent : Nat)
    (hdeclare : Program.declareProgram (r.units.flatMap (·.decls)) Program.directory r.program = .ok () s₀)
    (hbind : Program.bind Program.directory s₀ = .ok () s₁) :
    ∃ text trace, bindStage parent r = .ok text (({ r with trace }.adopt s₀).adopt s₁) := by
  have hspans (units : List Interchange.LoadedUnit) (r : Run) : ∃ trace,
      (units.forM fun u => spanned .unit u.path parent (do
        return Nat.repr u.decls.length ++ " declarations") : StageM Unit) r = .ok () { r with trace } := by
    induction units generalizing r with
    | nil => exact ⟨r.trace, rfl⟩
    | cons unit units ih =>
      obtain ⟨trace, htrace⟩ := ih { r with trace := _ }
      exact ⟨trace, bind_ok.2 ⟨(), _, rfl, htrace⟩⟩
  obtain ⟨trace, hunits⟩ := hspans r.units r
  have hdeclare : onProgram (Program.declareProgram (r.units.flatMap (·.decls))) { r with trace } =
      .ok () ({ r with trace }.adopt s₀) := by
    simp only [onProgram, hdeclare]
  have hbind : onProgram Program.bind ({ r with trace }.adopt s₀) =
      .ok () (({ r with trace }.adopt s₀).adopt s₁) := by
    simp only [onProgram, Run.adopt, hbind]
  exact ⟨_, trace, bind_ok.2 ⟨r, r, rfl, bind_ok.2 ⟨(), _, hunits, bind_ok.2 ⟨(), _, hdeclare,
    bind_ok.2 ⟨(), _, hbind, rfl⟩⟩⟩⟩⟩

/-- The postponed checks change the program only. -/
theorem deferredStage_ok {text : String} (h : deferredStage r = .ok text r') :
    ∃ b s, Program.deferred Program.directory r.program = .ok b s ∧ r' = r.adopt s := by
  simp only [deferredStage, bind_ok, get_ok] at h
  obtain ⟨_, _, ⟨rfl, rfl⟩, b, r₁, hdeferred, hlast⟩ := h
  obtain ⟨s, hchecks, rfl⟩ := onProgram_ok hdeferred
  refine ⟨b, s, hchecks, ?_⟩
  split at hlast
  · exact counts_ok hlast
  · exact (pure_ok.1 hlast).2.symm

/-! ## Liveness -/

/-- The function with a name is one of the program. -/
theorem function?_mem {s : State} {q : String} {f : FunctionItem}
    (h : Program.function? s q = some f) : f ∈ s.functions := by
  have hmem := List.mem_of_find?_eq_some h
  simpa using hmem

/-- A program begins in a function: the name that is asked for leads to it, and nothing speaks against it. -/
structure Begins (s : State) (name : String) (f : FunctionItem) : Prop where
  found : ∃ st, findGiven s name = .ok (some st) ∧ Program.function? s st.qualified = some f
  accepted : entryObjection s f = .ok none

namespace Begins

variable {s : State} {name : String} {f f' : FunctionItem}

/-- The function in which a program begins is one of the program. -/
theorem mem (h : Begins s name f) : f ∈ s.functions := by
  obtain ⟨_, -, hf⟩ := h.found
  exact function?_mem hf

end Begins

/-- Two runs with the same program, and the same request up to the number of diagnostics kept. -/
structure SameRequest (r r' : Run) : Prop where
  program : r'.program = r.program
  options : ∃ m, r'.options = { r.options with maxDiagnostics := m }

/-- A run has its own request. -/
theorem SameRequest.refl (r : Run) : SameRequest r r := ⟨rfl, _, rfl⟩

/-- A run with some remarks in its bag, as many as fit. -/
def Run.remarked (r : Run) (remarks : List Diagnostic) : Run := { r with bag := r.bag.addAll remarks }

/-- A search reads the program and the request, and changes nothing but that it remarks on the
request. What it gives has a property, whatever the bag has room for. -/
def Searches (r : Run) (Q : α → Prop) (x : StageM α) : Prop :=
  ∃ remarks : List Diagnostic, (∀ d ∈ remarks, d.isError = true) ∧
    ((∃ a, Q a ∧ ∀ r', SameRequest r r' → x r' = .ok a (r'.remarked remarks)) ∨
      ∃ e, ∀ r', SameRequest r r' → x r' = .error e (r'.remarked remarks))

namespace Searches

variable {Q : α → Prop} {P : β → Prop} {x : StageM α} {f : α → StageM β}

/-- A search may give back what has the property. -/
theorem pure {a : α} (h : Q a) : Searches r Q (Pure.pure a) :=
  ⟨[], by simp, .inl ⟨a, h, fun _ _ => rfl⟩⟩

/-- A search may fail. -/
theorem throw (e : Fault) : Searches r Q (MonadExcept.throw e) :=
  ⟨[], by simp, .inr ⟨e, fun _ _ => rfl⟩⟩

/-- A search may remark on the request. -/
theorem remark (code : Diagnostic.Code) (message : String) :
    Searches r (fun _ => True) (remark code message) :=
  ⟨[{ severity := .error, code, location := none, message }], by simp [Diagnostic.isError],
    .inl ⟨(), trivial, fun _ _ => rfl⟩⟩

/-- What is read is the same in all runs. -/
theorem get {f : Run → StageM β} (hsame : ∀ r', SameRequest r r' → f r' = f r)
    (hf : Searches r P (f r)) : Searches r P ((MonadState.get : StageM Run) >>= f) := by
  obtain ⟨remarks, herrors, hf⟩ := hf
  refine ⟨remarks, herrors, hf.imp ?_ ?_⟩
  · rintro ⟨b, hb, hf⟩
    refine ⟨b, hb, fun r' hr' => ?_⟩
    rw [← hf r' hr', ← hsame r' hr']
    rfl
  · rintro ⟨e, hf⟩
    refine ⟨e, fun r' hr' => ?_⟩
    rw [← hf r' hr', ← hsame r' hr']
    rfl

/-- Two searches in a row are a search. -/
theorem bind (hx : Searches r Q x) (hf : ∀ a, Q a → Searches r P (f a)) : Searches r P (x >>= f) := by
  have happend (r' : Run) (as bs : List Diagnostic) :
      (r'.remarked as).remarked bs = r'.remarked (as ++ bs) := by
    simp [Run.remarked, Diagnostic.Bag.addAll]
  obtain ⟨remarks, herrors, ⟨a, ha, hx⟩ | ⟨e, hx⟩⟩ := hx
  · obtain ⟨more, herrors', hf⟩ := hf a ha
    have hrun (r' : Run) (hr' : SameRequest r r') : (x >>= f) r' = f a (r'.remarked remarks) := by
      change EStateM.bind x f r' = _
      rw [EStateM.bind, hx r' hr']
    refine ⟨remarks ++ more, by simpa [or_imp, forall_and] using ⟨herrors, herrors'⟩, hf.imp ?_ ?_⟩
    · rintro ⟨b, hb, hf⟩
      refine ⟨b, hb, fun r' hr' => (hrun r' hr').trans ?_⟩
      exact happend r' remarks more ▸ hf (r'.remarked remarks) ⟨hr'.program, hr'.options⟩
    · rintro ⟨e, hf⟩
      refine ⟨e, fun r' hr' => (hrun r' hr').trans ?_⟩
      exact happend r' remarks more ▸ hf (r'.remarked remarks) ⟨hr'.program, hr'.options⟩
  · refine ⟨remarks, herrors, .inr ⟨e, fun r' hr' => ?_⟩⟩
    change EStateM.bind x f r' = _
    rw [EStateM.bind, hx r' hr']

end Searches

/-- The entry point is a function that the program can begin in. -/
theorem searches_resolveEntry (r : Run) (name : String) :
    Searches r (fun entry => ∀ f ∈ entry, Begins r.program name f) (resolveEntry name) := by
  have hrefuse (code : Diagnostic.Code) (text : String) :
      Searches r (fun entry : Option FunctionItem => ∀ f ∈ entry, Begins r.program name f)
        (remark code text >>= fun _ => pure none) :=
    .bind (.remark code text) fun _ _ => .pure (by simp)
  refine .get (fun r' hr' => by simp only [hr'.program]) ?_
  dsimp only
  rcases hst : findGiven r.program name with message | (_ | st)
  · exact hrefuse _ _
  · exact hrefuse _ _
  · dsimp only
    split
    · exact hrefuse _ _
    cases hf : Program.function? r.program st.qualified with
    | none => exact hrefuse _ _
    | some f =>
      dsimp only
      rcases hobjection : entryObjection r.program f with e | (_ | objection)
      · exact .throw e
      · exact .pure fun f' hf' => Option.some.inj hf' ▸ ⟨⟨st, hst, hf⟩, hobjection⟩
      · exact hrefuse _ _

/-- The names of exports are asked for one by one. -/
theorem searches_resolveExports (r : Run) (names : List String) :
    Searches r (fun exports => names = [] → exports = []) (resolveExports names) := by
  induction names with
  | nil => exact .pure fun _ => rfl
  | cons name names ih =>
    have hnone {exports : List String} : name :: names = [] → exports = [] := by simp
    have hremark (code : Diagnostic.Code) (text : String) :
        Searches r (fun exports => name :: names = [] → exports = [])
          (remark code text >>= fun _ => resolveExports names >>= fun exports => pure exports) :=
      .bind (.remark code text) fun _ _ => .bind ih fun _ _ => .pure hnone
    simp only [bind_pure] at hremark
    refine .get (fun r' hr' => by simp only [hr'.program]) ?_
    rcases findGiven r.program name with message | (_ | st)
    · exact hremark _ _
    · exact hremark _ _
    · dsimp only
      split
      · exact .bind ih fun _ _ => .pure hnone
      · exact hremark _ _

/-- What the search for live names comes to: the entry point, a function of the program, and the
names that the graph of the program finds from it and the exports. -/
theorem livenessStage_cases (r : Run) : ∃ remarks : List Diagnostic,
    (∀ d ∈ remarks, d.isError = true) ∧
    ((∃ entry live text, (∀ f ∈ entry, Begins r.program r.options.entryName f) ∧
      (∃ g exports, Program.Graph.ofNodes (Program.routines r.program) = .ok g ∧
        live = g.solve (entry.toList.map (·.qualified) ++ exports) ∧ (r.options.exports = [] → exports = [])) ∧
      ∀ r', SameRequest r r' →
        livenessStage r' = .ok text { r'.remarked remarks with entry, live := some live }) ∨
    ∃ e, ∀ r', SameRequest r r' → livenessStage r' = .error e (r'.remarked remarks)) := by
  cases hg : Program.Graph.ofNodes (Program.routines r.program) with
  | error e =>
    refine ⟨[], by simp, .inr ⟨e, fun r' hr' => ?_⟩⟩
    rw [livenessStage, get_bind_run, hr'.program, hg]
    rfl
  | ok g =>
    let search : StageM (Option FunctionItem × List String) :=
      (if r.options.library then pure none else resolveEntry r.options.entryName) >>= fun entry =>
        resolveExports r.options.exports >>= fun exports => pure (entry, exports)
    let finds (p : Option FunctionItem × List String) : Prop :=
      (∀ f ∈ p.1, Begins r.program r.options.entryName f) ∧ (r.options.exports = [] → p.2 = [])
    have hsearch : Searches r finds search := by
      have hrest (entry : Option FunctionItem) (hentry : ∀ f ∈ entry, Begins r.program r.options.entryName f) :
          Searches r finds (resolveExports r.options.exports >>= fun exports => pure (entry, exports)) :=
        .bind (searches_resolveExports r _) fun _ hexports => .pure ⟨hentry, hexports⟩
      refine .bind (Q := fun entry => ∀ f ∈ entry, Begins r.program r.options.entryName f) ?_ hrest
      split
      · exact .pure (by simp)
      · exact searches_resolveEntry r _
    let live (p : Option FunctionItem × List String) : List String :=
      g.solve (p.1.toList.map (·.qualified) ++ p.2)
    let text (p : Option FunctionItem × List String) : String :=
      Nat.repr (live p).length ++ " of " ++ Nat.repr g.size ++ " live"
    have hrun (r' : Run) (hr' : SameRequest r r') : livenessStage r' = (search >>= fun p =>
        (modify fun r => { r with entry := p.1, live := some (live p) }) >>= fun _ =>
          pure (text p)) r' := by
      obtain ⟨m, hm⟩ := hr'.options
      rw [livenessStage, get_bind_run, hr'.program, hg]
      dsimp only
      rw [get_bind_run, hm]
      simp only [search]
      split
      · simp only [bind_assoc, pure_bind, live, text]
      · simp only [bind_assoc, pure_bind, live, text]
        rfl
    obtain ⟨remarks, herrors, ⟨p, hp, hsearch⟩ | ⟨e, hsearch⟩⟩ := hsearch
    · refine ⟨remarks, herrors, .inl ⟨p.1, live p, text p, hp.1, ⟨g, p.2, rfl, rfl, hp.2⟩, fun r' hr' => ?_⟩⟩
      rw [hrun r' hr']
      change EStateM.bind search _ r' = _
      rw [EStateM.bind, hsearch r' hr']
      rfl
    · refine ⟨remarks, herrors, .inr ⟨e, fun r' hr' => ?_⟩⟩
      rw [hrun r' hr']
      change EStateM.bind search _ r' = _
      rw [EStateM.bind, hsearch r' hr']

/-- What the search for live names adds: the entry point, a function of the program, and the names
that the graph of the program finds from it and the exports. -/
structure Found (r r' : Run) : Prop where
  options : r'.options = r.options
  program : r'.program = r.program
  entry : ∀ f ∈ r'.entry, Begins r.program r.options.entryName f
  live : ∃ g exports, Program.Graph.ofNodes (Program.routines r.program) = .ok g ∧
    r'.live = some (g.solve (r'.entry.toList.map (·.qualified) ++ exports)) ∧ (r.options.exports = [] → exports = [])

/-- The search for live names finds them, if it ends well. -/
theorem livenessStage_ok {text : String} (h : livenessStage r = .ok text r') : Found r r' := by
  obtain ⟨remarks, -, ⟨entry, live, _, hentry, ⟨g, exports, hg, rfl, hexports⟩, hrun⟩ | ⟨e, hrun⟩⟩ :=
    livenessStage_cases r
  · cases (hrun r (.refl r)).symm.trans h
    exact ⟨rfl, rfl, hentry, g, exports, hg, rfl, hexports⟩
  · cases (hrun r (.refl r)).symm.trans h

/-! ## Code -/

/-- One declaration is compiled. -/
theorem compileDecl_ok {parent : Nat} {name : String} {work : LinkM Unit} {u : Unit}
    (h : compileDecl parent name work r = .ok u r') :
    Kept r r' ∧ work r.linkage = .ok () r'.linkage := by
  simp only [compileDecl, bind_ok, modify_ok] at h
  obtain ⟨_, _, rfl, _, r₁, hspan, rfl⟩ := h
  obtain ⟨_, _, r₂, _, hwork, rfl⟩ := spanned_ok hspan
  obtain ⟨_, r₃, hlinkage, hlast⟩ := bind_ok.1 hwork
  obtain ⟨-, rfl⟩ := pure_ok.1 hlast
  obtain ⟨v, hv, rfl⟩ := onLinkage_ok hlinkage
  exact ⟨⟨rfl, rfl, rfl, rfl, rfl⟩, hv⟩

/-- The declarations are compiled one after another, and later stages read nothing else that changed. -/
theorem compileDecls_ok {parent : Nat} {parts : List (String × LinkM Unit)} {u : Unit}
    (h : (parts.forM fun p => compileDecl parent p.1 p.2 : StageM Unit) r = .ok u r') :
    Kept r r' ∧ (parts.forM (fun p => p.2) : LinkM Unit) r.linkage = .ok () r'.linkage := by
  induction parts generalizing r with
  | nil =>
    obtain ⟨-, rfl⟩ := pure_ok.1 h
    exact ⟨.refl r, rfl⟩
  | cons p parts ih =>
    obtain ⟨_, r₁, hfirst, hrest⟩ := bind_ok.1 h
    obtain ⟨hkept, hwork⟩ := compileDecl_ok hfirst
    obtain ⟨hkept', hworks⟩ := ih hrest
    exact ⟨hkept.trans hkept', bind_ok.2 ⟨(), _, hwork, hworks⟩⟩

/-- The live declarations are compiled in order. -/
theorem codegenStage_ok {parent : Nat} {text : String} (h : codegenStage parent r = .ok text r') :
    Kept r r' ∧ ((Program.compilations r.program (r.live.getD [])).forM (fun p => p.2) : LinkM Unit)
      { library := r.options.library } = .ok () r'.linkage := by
  simp only [codegenStage, bind_ok, modify_ok, get_ok] at h
  obtain ⟨_, _, rfl, _, _, ⟨rfl, rfl⟩, _, r₁, hparts, hlast⟩ := h
  obtain ⟨-, rfl⟩ := pure_ok.1 hlast
  obtain ⟨hkept, hparts⟩ := compileDecls_ok hparts
  exact ⟨⟨hkept.units, hkept.options, hkept.program, hkept.live, hkept.entry⟩, hparts⟩

/-- What was compiled is linked. A program that is no library begins in its entry point. -/
theorem linkStage_ok {text : String} (h : linkStage r = .ok text r') :
    Kept r r' ∧ ∃ ds entry result, r'.output = some ds ∧
      Codegen.link entry result r.linkage = .ok ds r'.linkage ∧
      (r.options.library = false → ∃ f ∈ r.entry, entry = f.qualified ∧
        Codegen.resultOf (.ofStore r.program.types) f.result = .ok result) := by
  have hrest {entry : String} {result : Codegen.Result}
      (hrun : (onLinkage (Codegen.link entry result) >>= fun output =>
        (modify fun r : Run => { r with output := some output }) >>= fun _ =>
          pure (Nat.repr output.length ++ " directives")) r = .ok text r') :
      Kept r r' ∧ ∃ ds, r'.output = some ds ∧ Codegen.link entry result r.linkage = .ok ds r'.linkage := by
    obtain ⟨ds, r₁, hlink, hset⟩ := bind_ok.1 hrun
    obtain ⟨_, r₂, hmodify, hlast⟩ := bind_ok.1 hset
    obtain ⟨-, rfl⟩ := pure_ok.1 hlast
    obtain rfl := modify_ok.1 hmodify
    obtain ⟨u, hu, rfl⟩ := onLinkage_ok hlink
    exact ⟨⟨rfl, rfl, rfl, rfl, rfl⟩, ds, rfl, hu⟩
  simp only [linkStage, get_bind_ok] at h
  split at h
  · next hlibrary =>
    obtain ⟨hkept, ds, houtput, hlink⟩ := hrest h
    exact ⟨hkept, ds, _, _, houtput, hlink, by simp [hlibrary]⟩
  · cases hentry : r.entry with
    | none =>
      rw [hentry] at h
      obtain ⟨_, _, hthrow, -⟩ := bind_ok.1 h
      exact absurd hthrow throw_ok
    | some f =>
      rw [hentry] at h
      dsimp only at h
      cases hresult : Codegen.resultOf (.ofStore r.program.types) f.result with
      | error e =>
        rw [hresult] at h
        obtain ⟨_, _, hthrow, -⟩ := bind_ok.1 h
        exact absurd hthrow throw_ok
      | ok result =>
        rw [hresult] at h
        obtain ⟨hkept, ds, houtput, hlink⟩ := hrest h
        exact ⟨hkept, ds, _, _, houtput, hlink, fun _ => ⟨f, rfl, rfl, hresult⟩⟩

/-! ## Runs -/

/-- A stage did its work, and nothing that matters changed before and behind it. -/
def Ran (stage : Stage) (r r' : Run) : Prop :=
  ∃ parent detail r₀ r₁, Kept r r₀ ∧ r₀.linkage = r.linkage ∧ perform stage parent r₀ = .ok detail r₁ ∧
    Kept r₁ r' ∧ r'.linkage = r₁.linkage ∧ r'.output = r₁.output

/-- The state in which a stage does its work: its span is open, and it was announced. -/
def Run.opened (r : Run) (stage : Stage) : Run :=
  { r with
    trace := (r.trace.enter .pass stage.name r.parent).2, decl := "",
    events := r.events.push { stage, status := .working } }

/-- The state behind a stage, with what its work came to. -/
def Run.closed (r : Run) (stage : Stage) (span : Option Trace.Span) :
    EStateM.Result Fault Run String → Run
  | .ok detail r' =>
    r'.close stage span (if r'.failed && !r.failed then .error else .done) detail detail
  | .error .endless r' => { r' with ending := some (.overflow stage) }
  | .error fault r' =>
    { r' with ending := some (.internal stage r'.decl fault) }.close stage span .error
      "internal error" (Ending.internal stage r'.decl fault).message

/-- A stage whose work fails is closed, unless the process died. -/
theorem Run.closed_error (r r' : Run) (stage : Stage) (span : Option Trace.Span) (fault : Fault) :
    r.closed stage span (.error fault r') = { r' with ending := some (.overflow stage) } ∨
      fault ≠ .endless ∧ r.closed stage span (.error fault r') =
        { r' with ending := some (.internal stage r'.decl fault) }.close stage span .error
          "internal error" (Ending.internal stage r'.decl fault).message := by
  unfold Run.closed
  split
  next heq => cases heq
  next heq =>
    cases heq
    exact .inl rfl
  next hfault heq =>
    cases heq
    exact .inr ⟨hfault, rfl⟩

/-- A stage that is announced does its work and is closed. -/
theorem runStage_eq (stage : Stage) (h : r.options.watcher stage = none) : ∃ span,
    r.runStage stage =
      r.closed stage span (perform stage (Trace.Span.parentId span) (r.opened stage)) := by
  have hannounce : announce stage
      { r with trace := (r.trace.enter .pass stage.name r.parent).2, decl := "" } =
        .ok () (r.opened stage) := by
    rw [announce, get_bind_run, h]
    rfl
  have hwork (parent : Nat) : (announce stage >>= fun _ => perform stage parent)
      { r with trace := (r.trace.enter .pass stage.name r.parent).2, decl := "" } =
        perform stage parent (r.opened stage) := by
    change EStateM.bind _ _ _ = _
    rw [EStateM.bind, hannounce]
  exact ⟨_, congrArg (r.closed stage _) (hwork _)⟩

/-- A watcher that fails stops the compilation. -/
theorem runStage_watched {stage : Stage} {text : String} (h : r.options.watcher stage = some text) :
    (r.runStage stage).ending = some (.internal stage "" (.observer text)) := by
  have hannounce (parent : Nat) : (announce stage >>= fun _ => perform stage parent)
      { r with trace := (r.trace.enter .pass stage.name r.parent).2, decl := "" } =
        .error (.observer text)
          { r with trace := (r.trace.enter .pass stage.name r.parent).2, decl := "" } := by
    rw [announce, bind_assoc, get_bind_run, h]
    rfl
  simp only [Run.runStage, hannounce]
  rfl

/-- A compilation that goes on after a stage left it out because of errors, or ran it. -/
theorem step_cases {stage : Stage} (hending : (r.step stage).ending = none) : r.ending = none ∧
    ((r.failed = true ∧ stage.toleratesErrors = false ∧
        r.step stage = { r with events := r.events.push { stage, status := .skipped } }) ∨
      ((stage.toleratesErrors = true ∨ r.failed = false) ∧ ∃ span parent status detail r',
        perform stage parent (r.opened stage) = .ok detail r' ∧
          r.step stage = r'.close stage span status detail detail)) := by
  have hnone : r.ending = none := by
    cases hended : r.ending with
    | none => rfl
    | some e => simp [Run.step, hended] at hending
  refine ⟨hnone, ?_⟩
  rw [Run.step, if_neg (by simp [hnone])] at hending ⊢
  by_cases hskip : (r.failed && !stage.toleratesErrors) = true
  · rw [if_pos hskip]
    simp only [Bool.and_eq_true, Bool.not_eq_true'] at hskip
    exact .inl ⟨hskip.1, hskip.2, rfl⟩
  rw [if_neg hskip] at hending ⊢
  simp only [Bool.and_eq_true, Bool.not_eq_true', not_and_or, Bool.not_eq_false,
    Bool.not_eq_true] at hskip
  split at hending
  · cases hending
  next hcalled =>
  rw [if_neg hcalled]
  refine .inr ⟨hskip.symm, ?_⟩
  cases hwatcher : r.options.watcher stage with
  | some text => simp [runStage_watched hwatcher] at hending
  | none =>
    obtain ⟨span, hrun⟩ := runStage_eq stage hwatcher
    rw [hrun] at hending ⊢
    cases hperform : perform stage (Trace.Span.parentId span) (r.opened stage) with
    | ok detail r' => exact ⟨span, _, _, detail, r', hperform, rfl⟩
    | error fault r' =>
      rw [hperform] at hending
      obtain hclosed | ⟨-, hclosed⟩ := r.closed_error r' stage span fault <;>
        simp [hclosed, Run.close] at hending

/-- A compilation that goes on after a stage ran it, unless errors made it leave the stage out. -/
theorem step_ok {stage : Stage} (hending : (r.step stage).ending = none)
    (hruns : stage.toleratesErrors = true ∨ r.failed = false ∨ (r.step stage).failed = false) :
    r.ending = none ∧ (stage.toleratesErrors = true ∨ r.failed = false) ∧
      Ran stage r (r.step stage) := by
  obtain ⟨hnone, ⟨hfailed, hstrict, hskip⟩ |
    ⟨hruns', span, parent, status, detail, r', hrun, hclose⟩⟩ := step_cases hending
  · have hsame : (r.step stage).failed = r.failed := by rw [hskip]; rfl
    simp [hsame, hfailed, hstrict] at hruns
  · refine ⟨hnone, hruns', parent, detail, r.opened stage, r', ?_, rfl, hrun, ?_⟩
    · exact ⟨rfl, rfl, rfl, rfl, rfl⟩
    rw [hclose]
    exact ⟨⟨rfl, rfl, rfl, rfl, rfl⟩, rfl, rfl⟩

section Stages

variable {s : State}

/-- Once names are resolved the program is declared and bound. -/
theorem Ran.bind (h : Ran .bind r r') : r'.options = r.options ∧ ∃ s₀,
    Program.declareProgram (r.units.flatMap (·.decls)) Program.directory r.program = .ok () s₀ ∧
      Program.bind Program.directory s₀ = .ok () r'.program := by
  obtain ⟨parent, detail, r₀, r₁, hbefore, -, hrun, hbehind, -, -⟩ := h
  obtain ⟨r₂, s₀, s₁, hkept, -, hdeclare, hbind, rfl⟩ := bindStage_ok hrun
  rw [hbefore.units, hbefore.program] at hdeclare
  exact ⟨hbehind.options.trans (hkept.options.trans hbefore.options), s₀, hdeclare,
    by rw [hbehind.program]; exact hbind⟩

/-- A stage that runs the checker and counts what was reported. -/
theorem Ran.checks {stage : Stage} {x : Check.CheckM Unit}
    (hstage : ∀ parent, perform stage parent = (do onProgram x; counts)) (h : Ran stage r r') :
    r'.options = r.options ∧ x Program.directory r.program = .ok () r'.program := by
  obtain ⟨parent, detail, r₀, r₁, hbefore, -, hrun, hbehind, -, -⟩ := h
  rw [hstage] at hrun
  obtain ⟨s, hs, rfl⟩ := checks_ok hrun
  rw [hbefore.program] at hs
  exact ⟨hbehind.options.trans hbefore.options, by rw [hbehind.program]; exact hs⟩

/-- Once postponed checks are made the program is as they left it. -/
theorem Ran.deferred (h : Ran .deferred r r') : r'.options = r.options ∧
    ∃ b, Program.deferred Program.directory r.program = .ok b r'.program := by
  obtain ⟨parent, detail, r₀, r₁, hbefore, -, hrun, hbehind, -, -⟩ := h
  obtain ⟨b, s, hdeferred, rfl⟩ := deferredStage_ok hrun
  rw [hbefore.program] at hdeferred
  exact ⟨hbehind.options.trans hbefore.options, b, by rw [hbehind.program]; exact hdeferred⟩

/-- Once live names are searched they are found. -/
theorem Ran.liveness (h : Ran .liveness r r') : Found r r' := by
  obtain ⟨parent, detail, r₀, r₁, hbefore, -, hrun, hbehind, -, -⟩ := h
  obtain ⟨hoptions, hprogram, hentry, hlive⟩ := livenessStage_ok hrun
  rw [hbefore.program] at hprogram hentry hlive
  rw [hbefore.options] at hentry hlive
  refine ⟨hbehind.options.trans (hoptions.trans hbefore.options), hbehind.program.trans hprogram, ?_, ?_⟩
  · rw [hbehind.entry]
    exact hentry
  · rw [hbehind.entry, hbehind.live]
    exact hlive

/-- Once code is generated the live declarations are compiled. -/
theorem Ran.codegen (h : Ran .codegen r r') : Kept r r' ∧
    ((Program.compilations r.program (r.live.getD [])).forM (fun p => p.2) : LinkM Unit)
      { library := r.options.library } = .ok () r'.linkage := by
  obtain ⟨parent, detail, r₀, r₁, hbefore, -, hrun, hbehind, hlinkage, -⟩ := h
  obtain ⟨hkept, hparts⟩ := codegenStage_ok hrun
  rw [hbefore.program, hbefore.live, hbefore.options, ← hlinkage] at hparts
  exact ⟨(hbefore.trans hkept).trans hbehind, hparts⟩

/-- Once the parts are linked there are directives. -/
theorem Ran.link (h : Ran .link r r') : Kept r r' ∧ ∃ ds entry result, r'.output = some ds ∧
    Codegen.link entry result r.linkage = .ok ds r'.linkage ∧
    (r.options.library = false → ∃ f ∈ r.entry, entry = f.qualified ∧
      Codegen.resultOf (.ofStore r.program.types) f.result = .ok result) := by
  obtain ⟨parent, detail, r₀, r₁, hbefore, hbefore', hrun, hbehind, hlinkage, houtput⟩ := h
  obtain ⟨hkept, ds, entry, result, hds, hlink, hentry⟩ := linkStage_ok hrun
  rw [hbefore', ← hlinkage] at hlink
  rw [hbefore.options, hbefore.entry, hbefore.program] at hentry
  exact ⟨(hbefore.trans hkept).trans hbehind, ds, entry, result, houtput.trans hds, hlink, hentry⟩

end Stages

/-- What settling leaves as it is. -/
theorem settle_same (r : Run) : r.settle.ending = r.ending ∧ r.settle.linkage = r.linkage ∧
    r.settle.output = r.output ∧ r.settle.failed = r.failed := by
  unfold Run.settle
  split
  · exact ⟨rfl, rfl, rfl, rfl⟩
  · have hsort : r.bag.sort.hasErrors = r.bag.hasErrors := (List.mergeSort_perm _ _).any_eq
    exact ⟨rfl, rfl, rfl, by simp [Run.failed, hsort]⟩

/-- Settling a compilation changes nothing that stages read. -/
theorem kept_settle (r : Run) : Kept r r.settle := by
  unfold Run.settle
  split <;> exact ⟨rfl, rfl, rfl, rfl, rfl⟩

/-- A compilation that gives directives ran all its stages, and found no errors in the first four. -/
theorem ran_of_directives {units : List Interchange.LoadedUnit} {options : Options}
    {ds : List Directive} (h : (compile units options).directives = some ds) :
    ∃ r₁ r₂ r₃ r₄ r₅ r₆ r₇ : Run, Ran .bind (.ofUnits units options) r₁ ∧ Ran .kindcheck r₁ r₂ ∧
      Ran .typecheck r₂ r₃ ∧ Ran .deferred r₃ r₄ ∧ r₄.failed = false ∧ Ran .liveness r₄ r₅ ∧
      Ran .codegen r₅ r₆ ∧ Ran .link r₆ r₇ ∧ r₇.output = some ds ∧
      (compile units options).linkage = r₇.linkage ∧ Kept r₇ (compile units options) := by
  obtain ⟨r₁, hr₁⟩ : ∃ r, (Run.ofUnits units options).step .bind = r := ⟨_, rfl⟩
  obtain ⟨r₂, hr₂⟩ : ∃ r, r₁.step .kindcheck = r := ⟨_, rfl⟩
  obtain ⟨r₃, hr₃⟩ : ∃ r, r₂.step .typecheck = r := ⟨_, rfl⟩
  obtain ⟨r₄, hr₄⟩ : ∃ r, r₃.step .deferred = r := ⟨_, rfl⟩
  obtain ⟨r₅, hr₅⟩ : ∃ r, r₄.step .liveness = r := ⟨_, rfl⟩
  obtain ⟨r₆, hr₆⟩ : ∃ r, r₅.step .codegen = r := ⟨_, rfl⟩
  obtain ⟨r₇, hr₇⟩ : ∃ r, r₆.step .link = r := ⟨_, rfl⟩
  have hcompile : compile units options = r₇.settle := by
    rw [← hr₇, ← hr₆, ← hr₅, ← hr₄, ← hr₃, ← hr₂, ← hr₁]
    rfl
  obtain ⟨hending, hlinkage, houtput, hfailed⟩ := settle_same r₇
  rw [hcompile, Run.directives, hending, houtput, hfailed] at h
  simp only [Option.ite_none_right_eq_some, Bool.and_eq_true, Option.isNone_iff_eq_none,
    Bool.not_eq_true'] at h
  obtain ⟨⟨hending, hfailed⟩, houtput⟩ := h
  rw [hcompile, hlinkage]
  have hkept := kept_settle r₇
  -- Backwards: a stage that does not tolerate errors ran because there were none behind it.
  have hlast {stage : Stage} {r r' : Run} (hstage : stage.toleratesErrors = false)
      (hr : r.step stage = r') (hending : r'.ending = none) (hfailed : r'.failed = false) :
      r.ending = none ∧ r.failed = false ∧ Ran stage r r' := by
    subst hr
    obtain ⟨hending, hnone, hran⟩ := step_ok hending (.inr (.inr hfailed))
    exact ⟨hending, hnone.resolve_left (by simp [hstage]), hran⟩
  have hfirst {stage : Stage} {r r' : Run} (hstage : stage.toleratesErrors = true ∨ r.failed = false)
      (hr : r.step stage = r') (hending : r'.ending = none) : r.ending = none ∧ Ran stage r r' := by
    subst hr
    obtain ⟨hending, -, hran⟩ := step_ok hending (hstage.imp_right .inl)
    exact ⟨hending, hran⟩
  obtain ⟨hending, hfailed, hlink⟩ := hlast rfl hr₇ hending hfailed
  obtain ⟨hending, hfailed, hcodegen⟩ := hlast rfl hr₆ hending hfailed
  obtain ⟨hending, hfailed, hliveness⟩ := hlast rfl hr₅ hending hfailed
  obtain ⟨hending, hdeferred⟩ := hfirst (.inl rfl) hr₄ hending
  obtain ⟨hending, htypecheck⟩ := hfirst (.inl rfl) hr₃ hending
  obtain ⟨hending, hkindcheck⟩ := hfirst (.inl rfl) hr₂ hending
  obtain ⟨-, hbind⟩ := hfirst (.inr rfl) hr₁ hending
  exact ⟨r₁, r₂, r₃, r₄, r₅, r₆, r₇, hbind, hkindcheck, htypecheck, hdeferred, hfailed, hliveness,
    hcodegen, hlink, houtput, rfl, hkept⟩

/-! ## The course of a compilation -/

/-- A program that went through all checks without an error, in a process whose stack has room for
chains of `limit` definitions. -/
def Accepted (limit : Nat) (decls : List Source.Decl) (s : State) : Prop :=
  s.failed = false ∧ ∃ s₀ s₁ s₂ s₃ b,
    Program.declareProgram decls Program.directory (Program.emptyState.withLimit limit) = .ok () s₀ ∧
      Program.bind Program.directory s₀ = .ok () s₁ ∧
      Program.kindcheck Program.directory s₁ = .ok () s₂ ∧
      Program.typecheck Program.directory s₂ = .ok () s₃ ∧
      Program.deferred Program.directory s₃ = .ok b s

/-- How directives came about: a program was accepted, some of its names were found live, the entry
point among them, the live declarations were compiled into `u`, and these were linked. -/
structure Course (decls : List Source.Decl) (options : Options) (s : State) (live : List String)
    (u u' : Linkage) (ds : List Directive) : Prop where
  accepted : Accepted options.limit decls s
  graph : ∃ g extra, Program.Graph.ofNodes (Program.routines s) = .ok g ∧ live = g.solve extra
  compiled : ((Program.compilations s live).forM (fun p => p.2) : LinkM Unit)
    { library := options.library } = .ok () u
  linked : ∃ entry result, Codegen.link entry result u = .ok ds u' ∧
    (options.library = false → entry ∈ live)

/-- A compilation that gives directives took its course, and if it was not one of a library it has an entry
point, in which the program begins. -/
theorem result_of_directives {units : List Interchange.LoadedUnit} {options : Options}
    {ds : List Directive} (h : (compile units options).directives = some ds) :
    ∃ live u, (compile units options).live = some live ∧
      Course (units.flatMap (·.decls)) options (compile units options).program live u
        (compile units options).linkage ds ∧
      (options.library = false → ∃ f result, (compile units options).entry = some f ∧
        Begins (compile units options).program options.entryName f ∧ f.qualified ∈ live ∧
        Codegen.resultOf (.ofStore (compile units options).program.types) f.result = .ok result ∧
        Codegen.link f.qualified result u = .ok ds (compile units options).linkage) ∧
      ∃ g exports, Program.Graph.ofNodes (Program.routines (compile units options).program) = .ok g ∧
        live = g.solve ((compile units options).entry.toList.map (·.qualified) ++ exports) ∧
          (options.exports = [] → exports = []) := by
  obtain ⟨r₁, r₂, r₃, r₄, r₅, r₆, r₇, hbind, hkindcheck, htypecheck, hdeferred, hfailed, hliveness,
    hcodegen, hlink, houtput, hlinkage, hlast⟩ := ran_of_directives h
  obtain ⟨hoptions₁, s₀, hdeclare, hbind⟩ := hbind.bind
  obtain ⟨hoptions₂, hkindcheck⟩ := hkindcheck.checks fun _ => rfl
  obtain ⟨hoptions₃, htypecheck⟩ := htypecheck.checks fun _ => rfl
  obtain ⟨hoptions₄, b, hdeferred⟩ := hdeferred.deferred
  obtain ⟨hoptions₅, hprogram, hbegins, g, exports, hg, hlive, hexports⟩ := hliveness.liveness
  obtain ⟨hkept, hparts⟩ := hcodegen.codegen
  obtain ⟨hkept', ds', entry, result, houtput', hlinked, hentry⟩ := hlink.link
  obtain rfl : ds' = ds := Option.some.inj (houtput'.symm.trans houtput)
  have hoptions₄ : r₄.options = options := by
    rw [hoptions₄, hoptions₃, hoptions₂, hoptions₁]
    rfl
  have hoptions : r₅.options = options := hoptions₅.trans hoptions₄
  have hkept₇ := (hkept.trans hkept').trans hlast
  have hsame : (compile units options).program = r₄.program := hkept₇.program.trans hprogram
  rw [hprogram, hlive, Option.getD_some, hoptions] at hparts
  rw [hkept.options, hkept.entry, hkept.program, hprogram, hoptions] at hentry
  rw [hoptions₄] at hbegins hexports
  have hsound : r₄.program.failed = false := by
    simp only [Run.failed, Bool.or_eq_false_iff] at hfailed
    exact hfailed.1
  have hmem {f : FunctionItem} (hf : f ∈ r₅.entry) :
      f.qualified ∈ g.solve (r₅.entry.toList.map (·.qualified) ++ exports) := by
    refine Program.Graph.mem_solve_of_extra ?_ ?_
    · rw [Option.mem_def.1 hf]
      simp
    · rw [Program.has_of_mem_nodes (Program.Graph.ofNodes_ok hg).1]
      exact List.mem_append_right _ (List.mem_map_of_mem (Array.mem_toList_iff.2 (hbegins f hf).mem))
  rw [hsame, hlinkage]
  refine ⟨_, r₆.linkage, hkept₇.live.trans hlive, ⟨⟨hsound, s₀, _, _, _, b, hdeclare, hbind, hkindcheck,
    htypecheck, hdeferred⟩, ⟨g, _, hg, rfl⟩, hparts, entry, result, hlinked, fun hlibrary => ?_⟩,
    fun hlibrary => ?_, g, exports, hg, by rw [hkept₇.entry], hexports⟩
  all_goals obtain ⟨f, hf, rfl, hresult⟩ := hentry hlibrary
  · exact hmem hf
  · exact ⟨f, result, hkept₇.entry.trans hf, hbegins f hf, hmem hf, hresult, hlinked⟩

/-- A compilation that gives directives took its course. -/
theorem course_of_directives {units : List Interchange.LoadedUnit} {options : Options}
    {ds : List Directive} (h : (compile units options).directives = some ds) :
    ∃ s live u, Course (units.flatMap (·.decls)) options s live u
      (compile units options).linkage ds := by
  obtain ⟨live, u, -, hcourse, -, -⟩ := result_of_directives h
  exact ⟨_, live, u, hcourse⟩

/-- A program with an entry point that has statements. -/
def mainProgram (decls : List Source.Decl) (body : List Source.Stmt) : List Interchange.LoadedUnit :=
  let here : Source.Location := ⟨"", 0, 0⟩
  [{ path := "", decls := decls ++ [.function "main" [] [] none body false false here] }]

/-! ## Types that checking lets through

Checking looks at the head of a type when it decides whether values can have it. What lies further
inside is not looked at, so some programs are accepted although their code cannot be generated. -/

section Unchecked

open Source (TypeExpr Location)

/-- Code generation stopped at a declaration, for a reason as asked. -/
def Run.stoppedAt (r : Run) (decl : String) (reason : Fault → Bool) : Bool :=
  match r.ending with
  | some (.internal .codegen place fault) => place == decl && reason fault
  | _ => false

/-- A compilation that stopped at a declaration ended with a fault of that kind. -/
theorem Run.ending_of_stoppedAt {r : Run} {decl : String} {reason : Fault → Bool}
    (h : r.stoppedAt decl reason = true) :
    ∃ fault, r.ending = some (.internal .codegen decl fault) ∧ reason fault = true := by
  unfold Run.stoppedAt at h
  split at h
  · next place fault hending =>
    simp only [Bool.and_eq_true, beq_iff_eq] at h
    exact ⟨fault, h.1 ▸ hending, h.2⟩
  · cases h

/-- A size of a template without arguments was asked for. -/
def bareSize : Fault → Bool
  | .templateSize _ => true
  | _ => false

/-- Only a template without arguments has no size of its own. -/
theorem eq_of_bareSize {fault : Fault} (h : bareSize fault = true) :
    ∃ text, fault = .templateSize text := by
  unfold bareSize at h
  split at h
  · exact ⟨_, rfl⟩
  · cases h

/-- The size of what a null pointer points to was asked for. -/
def openSize : Fault → Bool
  | .variableSize name => name == "null"
  | _ => false

/-- Only the variable of a null pointer has no size here. -/
theorem eq_of_openSize {fault : Fault} (h : openSize fault = true) : fault = .variableSize "null" := by
  unfold openSize at h
  split at h
  · rw [beq_iff_eq.1 h]
  · cases h

/-- A routine without a pointer to its result was to give one back. -/
def lostResult : Fault → Bool
  | .noResultPointer _ => true
  | _ => false

/-- Only a routine without a pointer to its result lacks one. -/
theorem eq_of_lostResult {fault : Fault} (h : lostResult fault = true) :
    ∃ routine, fault = .noResultPointer routine := by
  unfold lostResult at h
  split at h
  · exact ⟨_, rfl⟩
  · cases h

/-- An exported global is a struct with a member whose type is a template without arguments. -/
def bareProgram : List Interchange.LoadedUnit :=
  let here : Location := ⟨"", 0, 0⟩
  mainProgram [.type "Box" ["T"] (.struct [("v", .name "T" here, here)] here) here,
    .global "g" (some (.struct [("b", .name "Box" here, here)] here)) none true here] []

/-- A variable gets its type from what a null pointer points to. -/
def openProgram : List Interchange.LoadedUnit :=
  let here : Location := ⟨"", 0, 0⟩
  mainProgram [] [.var "x" none (some (.unary .deref (.null here) here)) here]

/-- An exported function with a result of two words and a parameter of more words than fit. -/
def wideProgram : List Interchange.LoadedUnit :=
  let here : Location := ⟨"", 0, 0⟩
  let byte : TypeExpr := .name "byte" here
  let pair : TypeExpr := .struct [("a", byte, here), ("b", byte, here)] here
  mainProgram [.function "f" [] [⟨"p", .array (.array byte (2 ^ 62) here) 2 here, here⟩] (some pair)
    [.giveBack (some (.struct pair [] here)) here] true false here] []

/-- Some programs, each with the declaration whose code cannot be generated and the reason. -/
def stoppedPrograms : List (List Interchange.LoadedUnit × String × (Fault → Bool)) :=
  [(bareProgram, "global::g", bareSize), (openProgram, "global::main", openSize),
    (wideProgram, "global::f", lostResult)]

/-- All of them are accepted. -/
theorem stopped_compiled : ∀ p ∈ stoppedPrograms, (compile p.1 {}).failed = false ∧
    (compile p.1 {}).stoppedAt p.2.1 p.2.2 = true := by
  decide +kernel

/-- A template without arguments inside a struct is accepted, and its size is asked for. -/
theorem bare_template_compiled : (compile bareProgram {}).failed = false ∧
    ∃ text, (compile bareProgram {}).ending =
      some (.internal .codegen "global::g" (.templateSize text)) := by
  obtain ⟨haccepted, hstopped⟩ := stopped_compiled (bareProgram, "global::g", bareSize) (by simp [stoppedPrograms])
  obtain ⟨fault, hending, hfault⟩ := Run.ending_of_stoppedAt hstopped
  obtain ⟨text, rfl⟩ := eq_of_bareSize hfault
  exact ⟨haccepted, text, hending⟩

/-- What a null pointer points to is accepted as a value, and its size is asked for. -/
theorem open_variable_compiled : (compile openProgram {}).failed = false ∧
    (compile openProgram {}).ending =
      some (.internal .codegen "global::main" (.variableSize "null")) := by
  obtain ⟨haccepted, hstopped⟩ := stopped_compiled (openProgram, "global::main", openSize) (by simp [stoppedPrograms])
  obtain ⟨fault, hending, hfault⟩ := Run.ending_of_stoppedAt hstopped
  obtain rfl := eq_of_openSize hfault
  exact ⟨haccepted, hending⟩

/-- Where the words of the parameters wrap around, the pointer to the result is not found. -/
theorem wide_parameter_compiled : (compile wideProgram {}).failed = false ∧
    ∃ routine, (compile wideProgram {}).ending =
      some (.internal .codegen "global::f" (.noResultPointer routine)) := by
  obtain ⟨haccepted, hstopped⟩ := stopped_compiled (wideProgram, "global::f", lostResult) (by simp [stoppedPrograms])
  obtain ⟨fault, hending, hfault⟩ := Run.ending_of_stoppedAt hstopped
  obtain ⟨routine, rfl⟩ := eq_of_lostResult hfault
  exact ⟨haccepted, routine, hending⟩

/-- An exported global has the error type. -/
def errorProgram : List Interchange.LoadedUnit :=
  let here : Location := ⟨"", 0, 0⟩
  mainProgram [.global "g" (some (.name "error" here)) none true here] []

/-- The error type is found by its name, and accepted without a report. -/
theorem error_type_compiled : (compile errorProgram {}).directives.isSome ∧
    ∃ g ∈ (compile errorProgram {}).program.globals,
      (compile errorProgram {}).program.types.isError g.storage.type = .ok true := by
  have hglobal : (compile errorProgram {}).program.globals.toList.any (fun g =>
      ((compile errorProgram {}).program.types.isError g.storage.type).toOption == some true) = true := by
    decide +kernel
  obtain ⟨g, hg, herror⟩ := List.any_eq_true.1 hglobal
  refine ⟨by decide +kernel, g, by simpa using hg, ?_⟩
  cases hresult : (compile errorProgram {}).program.types.isError g.storage.type with
  | error fault => simp [hresult, Except.toOption] at herror
  | ok b =>
    obtain rfl : b = true := by simpa [hresult, Except.toOption] using herror
    rfl

/-- A function without a result computes a sum, and the entry point casts its call to a byte. -/
def silentProgram : List Interchange.LoadedUnit :=
  let here : Location := ⟨"", 0, 0⟩
  let byte : TypeExpr := .name "byte" here
  [{ path := "", decls := [.function "v" [] [] none
      [.expression (.binary .add (.integer 20 here) (.integer 22 here) here) here] false false here,
    .function "main" [] [] (some byte)
      [.giveBack (some (.cast byte (.call (.name "v" [] here) [] here) here)) here] false false here] }]

/-- A cast of what has no value is accepted, and gives what the routine left in the register. -/
theorem silent_call_cast : (compile silentProgram {}).failed = false ∧
    (compile silentProgram {}).directives.bind (Machine.givenBack Codegen.startLabel) = some 42 :=
  ⟨by decide +kernel, by decide +kernel⟩

/-- A global whose initial value is null, in a program with some functions. -/
def nullProgram (functions : List Source.Decl) : List Interchange.LoadedUnit :=
  let here : Location := ⟨"", 0, 0⟩
  mainProgram ([.type "S" [] (.struct [("m", .name "byte" here, here)] here) here,
    .global "g" none (some (.null here)) false here] ++ functions) []

/-- The global is made to point to a struct. -/
def pointing : Source.Decl :=
  let here : Location := ⟨"", 0, 0⟩
  .function "init" [] [⟨"p", .pointer (.name "S" here) here, here⟩] none
    [.assign (.name "g" [] here) (.name "p" [] here) here] false false here

/-- A member of what the global points to is read. -/
def reading : Source.Decl :=
  let here : Location := ⟨"", 0, 0⟩
  .function "use" [] [] (some (.name "byte" here))
    [.giveBack (some (.arrow (.name "g" [] here) "m" here)) here] false false here

/-- The type of the global is left open by its initial value, and becomes known with the first body that
uses it: the functions are accepted in one order only. -/
theorem open_global_ordered : [pointing, reading].Perm [reading, pointing] ∧
    (check (nullProgram [pointing, reading]) {}).failed = false ∧
    (check (nullProgram [reading, pointing]) {}).failed = true :=
  ⟨.swap .., by decide +kernel, by decide +kernel⟩

end Unchecked

end Qll.Compilation
