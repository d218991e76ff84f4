import Qll.Proofs.Compilation.Protocol
import Qll.Proofs.Program.Entering

/-!
# How many diagnostics are kept

Two compilations that differ only in how many diagnostics they keep do the same work: apart from what
is told, the bag is only asked whether there are errors. The checker counts its errors besides, so the
bag decides nothing before the request is looked at. A remark on the request is in the bag only. Where
the bag is full of warnings it is lost, and the compilation goes on as if the request were in order.
-/

namespace Qll.Compilation

open Assembly (Directive)
open Check (State CheckM)
open Codegen (LinkM)
open Qll.Computation

variable {r r' : Run} {α β : Type}

/-! ## The same work -/

/-- Two compilations that agree in everything but what they keep, tell and time. -/
structure Alike (r r' : Run) : Prop extends SameRequest r r' where
  units : r'.units = r.units
  seen : r'.seen = r.seen
  live : r'.live = r.live
  entry : r'.entry = r.entry
  linkage : r'.linkage = r.linkage
  output : r'.output = r.output
  decl : r'.decl = r.decl
  ending : r'.ending = r.ending

/-- The requests have the same watcher. -/
theorem SameRequest.watcher (hr : SameRequest r r') : r'.options.watcher = r.options.watcher := by
  obtain ⟨m, hm⟩ := hr.options
  rw [hm]

/-- The requests are called off alike. -/
theorem SameRequest.cancelled (hr : SameRequest r r') :
    r'.options.cancelled = r.options.cancelled := by
  obtain ⟨m, hm⟩ := hr.options
  rw [hm]

/-- Two computations do the same to two such compilations, and give related values. -/
def Matches (E : α → α → Prop) (x y : StageM α) : Prop := ∀ r r', Alike r r' →
  (∃ a b s s', x r = .ok a s ∧ y r' = .ok b s' ∧ E a b ∧ Alike s s') ∨
    ∃ e s s', x r = .error e s ∧ y r' = .error e s' ∧ Alike s s'

namespace Matches

variable {E : α → α → Prop} {F : β → β → Prop} {x y : StageM α} {f g : α → StageM β}

/-- Related values match. -/
theorem pure {a b : α} (h : E a b) : Matches E (Pure.pure a) (Pure.pure b) :=
  fun r r' hr => .inl ⟨a, b, r, r', rfl, rfl, h, hr⟩

/-- The same fault matches itself. -/
theorem throw (e : Fault) : Matches E (MonadExcept.throw e) (MonadExcept.throw e) :=
  fun r r' hr => .inr ⟨e, r, r', rfl, rfl, hr⟩

/-- Changes that keep the likeness match. -/
theorem update {u v : Run → Run} (h : ∀ r r', Alike r r' → Alike (u r) (v r')) :
    Matches (fun _ _ => True) (modify u : StageM PUnit) (modify v) :=
  fun r r' hr => .inl ⟨(), (), u r, v r', rfl, rfl, trivial, h r r' hr⟩

/-- Computations that read the compilation match if they do for all alike ones. -/
theorem get {f g : Run → StageM β} (h : ∀ r r', Alike r r' → Matches F (f r) (g r')) :
    Matches F ((MonadState.get : StageM Run) >>= f) ((MonadState.get : StageM Run) >>= g) :=
  fun r r' hr => h r r' hr r r' hr

/-- Two computations in a row match what each of them matches. -/
theorem bind (hx : Matches E x y) (hf : ∀ a b, E a b → Matches F (f a) (g b)) :
    Matches F (x >>= f) (y >>= g) := by
  intro r r' hr
  change (∃ a b s s', EStateM.bind x f r = .ok a s ∧ EStateM.bind y g r' = .ok b s' ∧ _) ∨
    ∃ e s s', EStateM.bind x f r = .error e s ∧ EStateM.bind y g r' = .error e s' ∧ _
  unfold EStateM.bind
  obtain ⟨a, b, s, s', hx, hy, hab, hs⟩ | ⟨e, s, s', hx, hy, hs⟩ := hx r r' hr
  · rw [hx, hy]
    exact hf a b hab s s' hs
  · rw [hx, hy]
    exact .inr ⟨e, s, s', rfl, rfl, hs⟩

/-- Loops match if their rounds do. -/
theorem forM {h h' : β → StageM PUnit} (hh : ∀ b, Matches (fun _ _ => True) (h b) (h' b))
    (l : List β) : Matches (fun _ _ => True) (l.forM h : StageM PUnit) (l.forM h') := by
  induction l with
  | nil => exact pure trivial
  | cons b l ih => exact bind (hh b) fun _ _ _ => ih

/-- Work on the program matches itself. -/
theorem onProgram (x : CheckM α) : Matches Eq (onProgram x) (Compilation.onProgram x) := by
  intro r r' hr
  have hadopt (s : State) : Alike (r.adopt s) (r'.adopt s) := by
    have hseen : (r'.seen.forward (s.reports.toList.drop r'.program.reports.size)).2 =
        (r.seen.forward (s.reports.toList.drop r.program.reports.size)).2 := by
      rw [hr.seen, hr.program]
    exact ⟨⟨rfl, hr.options⟩, hr.units, hseen, hr.live, hr.entry, hr.linkage, hr.output, hr.decl,
      hr.ending⟩
  unfold Compilation.onProgram
  rw [hr.program]
  cases x Program.directory r.program with
  | ok a s => exact .inl ⟨a, a, _, _, rfl, rfl, rfl, hadopt s⟩
  | error e s => exact .inr ⟨e, _, _, rfl, rfl, hadopt s⟩

/-- Work on the linkage matches itself. -/
theorem onLinkage (x : LinkM α) : Matches Eq (onLinkage x) (Compilation.onLinkage x) := by
  intro r r' hr
  unfold Compilation.onLinkage
  rw [hr.linkage]
  cases x r.linkage with
  | ok a u => exact .inl ⟨a, a, _, _, rfl, rfl, rfl, { hr with linkage := rfl }⟩
  | error e u => exact .inr ⟨e, _, _, rfl, rfl, { hr with linkage := rfl }⟩

/-- Work within a span matches such work within another one. -/
theorem spanned {scope : Trace.Scope} {name : String} {parent parent' : Nat}
    {work work' : StageM String} (hwork : Matches (fun _ _ => True) work work') :
    Matches (fun _ _ => True) (spanned scope name parent work)
      (Compilation.spanned scope name parent' work') := by
  intro r r' hr
  refine bind hwork (fun detail detail' _ => update fun s s' hs => ?_) { r with trace := _ }
    { r' with trace := _ } ?_
  · exact { hs with }
  · exact { hr with }

end Matches

/-! ## Stages -/

/-- What is told of the sizes of tables matches itself. -/
theorem matches_counts : Matches (fun _ _ => True) counts counts :=
  .get fun _ _ _ => .pure trivial

/-- The resolution of names is the same whatever bags and traces hold. -/
theorem matches_bindStage (parent parent' : Nat) :
    Matches (fun _ _ => True) (bindStage parent) (bindStage parent') := by
  refine .get fun r r' hr => ?_
  rw [hr.units]
  refine .bind (.forM (fun u => .spanned (.pure trivial)) _) fun _ _ _ => ?_
  exact .bind (.onProgram _) fun _ _ _ => .bind (.onProgram _) fun _ _ _ => .pure trivial

/-- The postponed checks are the same whatever bags and traces hold. -/
theorem matches_deferredStage : Matches (fun _ _ => True) deferredStage deferredStage := by
  refine .get fun r r' _ => .bind (.onProgram _) fun b b' hb => ?_
  subst hb
  cases b
  · exact .pure trivial
  · exact matches_counts

/-- The search for live names is the same whatever bags and traces hold. -/
theorem matches_livenessStage : Matches (fun _ _ => True) livenessStage livenessStage := by
  intro r r' hr
  obtain ⟨remarks, -, ⟨entry, live, text, -, -, hrun⟩ | ⟨e, hrun⟩⟩ := livenessStage_cases r
  · exact .inl ⟨text, text, _, _, hrun r (.refl r), hrun r' hr.toSameRequest, trivial,
      { hr with live := rfl, entry := rfl }⟩
  · exact .inr ⟨e, _, _, hrun r (.refl r), hrun r' hr.toSameRequest, { hr with }⟩

/-- Code generation is the same whatever bags and traces hold. -/
theorem matches_codegenStage (parent parent' : Nat) :
    Matches (fun _ _ => True) (codegenStage parent) (codegenStage parent') := by
  have hdecl (p : String × LinkM Unit) : Matches (fun _ _ => True) (compileDecl parent p.1 p.2)
      (compileDecl parent' p.1 p.2) :=
    .bind (.update fun r r' hr => { hr with decl := rfl }) fun _ _ _ =>
      .bind (.spanned (.bind (.onLinkage p.2) fun _ _ _ => .pure trivial)) fun _ _ _ =>
        .update fun r r' hr => { hr with decl := rfl }
  refine .bind (.update fun r r' hr => ?_) fun _ _ _ => .get fun r r' hr => ?_
  · obtain ⟨m, hm⟩ := hr.options
    exact { hr with linkage := by rw [hm] }
  · rw [hr.program, hr.live]
    exact .bind (.forM hdecl _) fun _ _ _ => .pure trivial

/-- Linking is the same whatever bags and traces hold. -/
theorem matches_linkStage : Matches (fun _ _ => True) linkStage linkStage := by
  have hlast {output output' : List Directive} (h : output = output') : Matches (fun _ _ => True)
      ((modify fun r : Run => { r with output := some output }) >>= fun _ =>
        pure (Nat.repr output.length ++ " directives"))
      ((modify fun r : Run => { r with output := some output' }) >>= fun _ =>
        pure (Nat.repr output'.length ++ " directives")) :=
    .bind (.update fun r r' hr => { hr with output := by rw [h] }) fun _ _ _ => .pure trivial
  refine .get fun r r' hr => ?_
  obtain ⟨m, hm⟩ := hr.options
  rw [hm, hr.entry, hr.program]
  dsimp only
  split
  · exact .bind (.onLinkage _) fun _ _ => hlast
  · cases r.entry with
    | none => exact .bind (.throw _) fun _ _ => hlast
    | some f =>
      dsimp only
      cases Codegen.resultOf (.ofStore r.program.types) f.result with
      | error e => exact .bind (.throw _) fun _ _ => hlast
      | ok result => exact .bind (.onLinkage _) fun _ _ => hlast

/-- The work of every stage is the same whatever bags and traces hold. -/
theorem matches_perform (stage : Stage) (parent parent' : Nat) :
    Matches (fun _ _ => True) (perform stage parent) (perform stage parent') := by
  have hchecks (x : CheckM Unit) : Matches (fun _ _ => True) (onProgram x >>= fun _ => counts)
      (onProgram x >>= fun _ => counts) := .bind (.onProgram x) fun _ _ _ => matches_counts
  cases stage with
  | bind => exact matches_bindStage _ _
  | kindcheck => exact hchecks _
  | typecheck => exact hchecks _
  | deferred => exact matches_deferredStage
  | liveness => exact matches_livenessStage
  | codegen => exact matches_codegenStage _ _
  | link => exact matches_linkStage

/-- A stage is announced alike. -/
theorem matches_announce (stage : Stage) :
    Matches (fun _ _ => True) (announce stage) (announce stage) := by
  intro r r' hr
  rw [announce, get_bind_run, get_bind_run, hr.watcher]
  cases r.options.watcher stage with
  | none => exact .inl ⟨(), (), _, _, rfl, rfl, trivial, { hr with }⟩
  | some text => exact .inr ⟨_, _, _, rfl, rfl, hr⟩

/-- A stage does the same to two compilations of the same request. -/
theorem Alike.runStage (hr : Alike r r') (stage : Stage) :
    Alike (r.runStage stage) (r'.runStage stage) := by
  have hwork (parent parent' : Nat) := Matches.bind (matches_announce stage) fun _ _ _ =>
    matches_perform stage parent parent'
  unfold Run.runStage
  dsimp only
  obtain ⟨_, _, s, s', hs, hs', -, h⟩ | ⟨e, s, s', hs, hs', h⟩ := hwork
    (Trace.Span.parentId (r.trace.enter .pass stage.name r.parent).1)
    (Trace.Span.parentId (r'.trace.enter .pass stage.name r'.parent).1)
    { r with trace := (r.trace.enter .pass stage.name r.parent).2, decl := "" }
    { r' with trace := (r'.trace.enter .pass stage.name r'.parent).2, decl := "" }
    { hr with decl := rfl }
  · rw [hs, hs']
    exact { h with }
  · rw [hs, hs']
    have hending : some (Ending.internal stage s'.decl e) = some (.internal stage s.decl e) := by
      rw [h.decl]
    cases e with
    | endless => exact { h with ending := rfl }
    | _ => exact { h with ending := hending }

/-- So does a step, as long as both have errors or neither has. -/
theorem Alike.step (hr : Alike r r') (stage : Stage)
    (hfailed : r.ending = none → r'.failed = r.failed) : Alike (r.step stage) (r'.step stage) := by
  unfold Run.step
  have hsame : r'.ending.isSome = r.ending.isSome := by rw [hr.ending]
  by_cases hending : r.ending.isSome = true
  · rw [if_pos hending, if_pos (hsame.trans hending)]
    exact hr
  have hending' : ¬ r'.ending.isSome = true := by rwa [hsame]
  rw [if_neg hending, if_neg hending', hfailed (by simpa using hending)]
  split
  · exact { hr with }
  rw [hr.cancelled]
  split
  · exact { hr with ending := rfl }
  · exact hr.runStage stage

/-! ## Errors of the checker -/

/-- While a program is checked, the bag has errors only if the checker counted them. -/
structure Counted (r : Run) : Prop where
  graded : r.program.Graded
  bag : r.bag.hasErrors = true → r.program.failed = true

/-- At the beginning no errors are kept that the checker did not count. -/
theorem counted_ofUnits (units : List Interchange.LoadedUnit) (options : Options) :
    Counted (.ofUnits units options) where
  graded := by simp [State.Graded, Run.ofUnits, Program.emptyState, State.withLimit]
  bag h := absurd h Bool.false_ne_true

/-- With all errors counted, a compilation has failed when its program has. -/
theorem Counted.failed (hr : Counted r) : r.failed = r.program.failed := by
  rw [Run.failed, Bool.or_eq_left_iff_imp]
  exact hr.bag

/-- Only what was reported is forwarded. -/
theorem forward_subset (seen : Diagnostic.Seen) (ds : List Diagnostic) :
    (seen.forward ds).1 ⊆ ds := by
  induction ds generalizing seen with
  | nil => exact List.nil_subset _
  | cons d ds ih =>
    simp only [Diagnostic.Seen.forward]
    split
    · exact List.cons_subset_cons d (ih _)
    · exact List.subset_cons_of_subset d (ih _)

/-- An error in a bag was there before, or is one of those that were added. -/
theorem hasErrors_addAll_cases {b : Diagnostic.Bag} {ds : List Diagnostic}
    (h : (b.addAll ds).hasErrors = true) : b.hasErrors = true ∨ ∃ d ∈ ds, d.isError = true := by
  induction ds generalizing b with
  | nil => exact .inl h
  | cons d ds ih =>
    obtain h | ⟨e, he, herror⟩ := ih (b := b.add d) h
    · rw [Diagnostic.Bag.add] at h
      split at h
      · simp only [Diagnostic.Bag.hasErrors, List.any_append, List.any_cons, List.any_nil,
          Bool.or_false, Bool.or_eq_true] at h
        exact h.imp_right fun hd => ⟨d, List.mem_cons_self, hd⟩
      · exact .inl h
    · exact .inr ⟨e, List.mem_cons_of_mem d he, herror⟩

/-- What the checker reports is counted, and goes to the bag. -/
theorem Counted.adopt {s : State} (hr : Counted r) (hs : s.Graded)
    (hkeeps : r.program.failed = true → s.failed = true) : Counted (r.adopt s) := by
  refine ⟨hs, fun herrors => ?_⟩
  obtain herrors | ⟨d, hd, herror⟩ := hasErrors_addAll_cases herrors
  · exact hkeeps (hr.bag herrors)
  · have hmem : d ∈ s.reports := by simpa using List.mem_of_mem_drop (forward_subset _ _ hd)
    by_contra hfailed
    have hclean := Check.State.clean_of_accepted (Bool.not_eq_true _ ▸ hfailed)
    exact hclean d hmem (hs d hmem herror)

/-- The stages that check a program have no errors of their own. -/
theorem Counted.perform {stage : Stage} {parent : Nat} {text : String} (hr : Counted r)
    (hstage : stage ∈ Stage.checking) (hfirst : stage = .bind → r.program.failed = false)
    (h : perform stage parent r = .ok text r') : Counted r' := by
  have hgrows {s : State} (hs : r.program.Grows s) : Counted (r.adopt s) :=
    hr.adopt (hs.graded hr.graded) hs.failed
  simp only [Stage.checking, List.mem_cons, List.not_mem_nil, or_false] at hstage
  obtain rfl | rfl | rfl | rfl := hstage
  · obtain ⟨r₀, s₀, s₁, hkept, hbag, hdeclare, hbind, rfl⟩ := bindStage_ok h
    have hr₀ : Counted r₀ := ⟨hkept.program ▸ hr.graded, by rw [hbag, hkept.program]; exact hr.bag⟩
    have hs₀ : s₀.Graded :=
      Program.graded_enters.declareAll Program.root _ _ _ s₀ hdeclare hr.graded
    have hs₁ : s₀.Grows s₁ := Program.grows_bind hbind
    refine (hr₀.adopt hs₀ fun hfailed => ?_).adopt (hs₁.graded hs₀) hs₁.failed
    simp [hkept.program, hfirst rfl] at hfailed
  · obtain ⟨s, hs, rfl⟩ := checks_ok h
    exact hgrows (Program.grows_kindcheck hs)
  · obtain ⟨s, hs, rfl⟩ := checks_ok h
    exact hgrows (Program.grows_typecheck hs)
  · obtain ⟨b, s, hs, rfl⟩ := deferredStage_ok h
    exact hr.adopt (Program.graded_deferred hs hr.graded) (Program.failed_deferred hs)

/-- The stages of checking count every error. -/
theorem Counted.step {stage : Stage} (hr : Counted r) (hstage : stage ∈ Stage.checking)
    (hfirst : stage = .bind → r.program.failed = false) (hending : (r.step stage).ending = none) :
    Counted (r.step stage) := by
  obtain ⟨-, ⟨-, -, hskip⟩ | ⟨-, span, parent, status, detail, r', hrun, hclose⟩⟩ :=
    step_cases hending
  · rw [hskip]
    exact ⟨hr.graded, hr.bag⟩
  · have hopened : Counted (r.opened stage) := ⟨hr.graded, hr.bag⟩
    have hr' := hopened.perform hstage hfirst hrun
    rw [hclose]
    exact ⟨hr'.graded, hr'.bag⟩

/-- Two compilations that check the same program, with all errors counted. -/
structure Checking (r r' : Run) : Prop where
  alike : Alike r r'
  counted : r.ending = none → Counted r ∧ Counted r'

/-- Two compilations that check the same program fail together. -/
theorem Checking.failed (h : Checking r r') (hending : r.ending = none) : r'.failed = r.failed := by
  obtain ⟨hr, hr'⟩ := h.counted hending
  rw [hr.failed, hr'.failed, h.alike.program]

/-- Two compilations go on checking the same program. -/
theorem Checking.step (h : Checking r r') (stage : Stage) (hstage : stage ∈ Stage.checking)
    (hfirst : stage = .bind → r.program.failed = false) :
    Checking (r.step stage) (r'.step stage) := by
  have halike := h.alike.step stage h.failed
  refine ⟨halike, fun hending => ?_⟩
  obtain ⟨hr, hr'⟩ := h.counted (step_cases hending).1
  exact ⟨hr.step hstage hfirst hending,
    hr'.step hstage (by rwa [h.alike.program]) (halike.ending.trans hending)⟩

/-! ## Remarks on the request -/

/-- The request is refused: the search for live names ends with remarks on it. -/
def Run.refuses (r : Run) : Bool :=
  match livenessStage { r with bag := .empty 0 } with
  | .ok _ r' => r'.bag.hasErrors
  | .error .. => false

/-- The request is refused, but no remark on it was kept, so the compilation goes on. -/
def Run.loses (r : Run) : Bool := r.ending.isNone && !r.failed && r.refuses

/-- A full bag takes nothing. -/
theorem addAll_full {b : Diagnostic.Bag} (h : b.hasRoom = false) (ds : List Diagnostic) :
    b.addAll ds = b := by
  induction ds with
  | nil => rfl
  | cons d ds ih =>
    have hadd : b.add d = b := by simp [Diagnostic.Bag.add, h]
    exact (congrArg (Diagnostic.Bag.addAll · ds) hadd).trans ih

/-- Errors are in a bag after some were added, unless it was full. -/
theorem hasErrors_addAll_errors {b : Diagnostic.Bag} {ds : List Diagnostic}
    (hds : ∀ d ∈ ds, d.isError = true) (hb : b.hasErrors = false) :
    (b.addAll ds).hasErrors = (!ds.isEmpty && b.hasRoom) := by
  cases ds with
  | nil => exact hb
  | cons d ds =>
    cases hroom : b.hasRoom with
    | false => rw [addAll_full hroom, hb, Bool.and_false]
    | true =>
      refine hasErrors_addAll (b := b.add d) ds ?_
      simp [Diagnostic.Bag.add, hroom, Diagnostic.Bag.hasErrors, hds d List.mem_cons_self]

/-- The request is refused or not, whatever the bag has room for. -/
theorem SameRequest.refuses (hr : SameRequest r r') : r'.refuses = r.refuses := by
  have hr₀ : SameRequest r { r with bag := .empty 0 } := ⟨rfl, _, rfl⟩
  have hr₀' : SameRequest r { r' with bag := .empty 0 } := ⟨hr.program, hr.options⟩
  obtain ⟨remarks, -, ⟨_, _, _, -, -, hrun⟩ | ⟨_, hrun⟩⟩ := livenessStage_cases r
  · rw [Run.refuses, Run.refuses, hrun _ hr₀, hrun _ hr₀']
    rfl
  · rw [Run.refuses, Run.refuses, hrun _ hr₀, hrun _ hr₀']

/-- The search for live names finds an error if the request is refused and the bag is not full. A full
bag stays as it is. -/
theorem failed_liveness (hending : (r.step .liveness).ending = none) :
    (r.step .liveness).failed = (r.failed || (r.refuses && r.bag.hasRoom)) ∧
      SameRequest r (r.step .liveness) ∧
      (r.bag.hasRoom = false → (r.step .liveness).bag = r.bag) := by
  obtain ⟨-, ⟨hfailed, -, hskip⟩ | ⟨hruns, span, parent, status, detail, r', hrun, hclose⟩⟩ :=
    step_cases hending
  · have hsame : (r.step .liveness).failed = r.failed := by rw [hskip]; rfl
    exact ⟨by rw [hsame, hfailed, Bool.true_or], hskip ▸ ⟨rfl, _, rfl⟩, fun _ => by rw [hskip]⟩
  have hfailed : r.failed = false := hruns.resolve_left (by decide)
  obtain ⟨remarks, hremarks, ⟨entry, live, text, -, -, hsearch⟩ | ⟨e, hsearch⟩⟩ :=
    livenessStage_cases r
  · have hrefuses : r.refuses = !remarks.isEmpty := by
      rw [Run.refuses, hsearch { r with bag := .empty 0 } ⟨rfl, _, rfl⟩]
      exact (hasErrors_addAll_errors hremarks rfl).trans (Bool.and_true _)
    cases (hsearch (r.opened .liveness) ⟨rfl, _, rfl⟩).symm.trans hrun
    rw [hclose]
    refine ⟨?_, ⟨rfl, _, rfl⟩, fun hroom => addAll_full hroom remarks⟩
    simp only [Run.failed, Bool.or_eq_false_iff] at hfailed
    have herrors := hasErrors_addAll_errors hremarks hfailed.2
    rw [Run.failed, Run.failed, hfailed.1, hfailed.2, hrefuses, ← herrors]
    exact congrArg (· || _) hfailed.1
  · cases (hsearch (r.opened .liveness) ⟨rfl, _, rfl⟩).symm.trans hrun

/-- Two compilations agree on the errors after the search if both or neither of them lost a remark. -/
theorem failed_iff_loses (hr : SameRequest r r') (hfailed : r'.failed = r.failed)
    (hending : (r.step .liveness).ending = none) (hending' : (r'.step .liveness).ending = none) :
    (r'.step .liveness).failed = (r.step .liveness).failed ↔
      (r.step .liveness).loses = (r'.step .liveness).loses := by
  obtain ⟨herrors, hsame, -⟩ := failed_liveness hending
  obtain ⟨herrors', hsame', -⟩ := failed_liveness hending'
  simp only [Run.loses, hending, hending', herrors, herrors', hfailed, hsame.refuses,
    hsame'.refuses, hr.refuses]
  cases r.failed <;> cases r.refuses <;> cases r.bag.hasRoom <;> cases r'.bag.hasRoom <;> decide

/-- A remark is lost only where the bag is full. -/
theorem hasRoom_of_loses (h : (r.step .liveness).loses = true) :
    (r.step .liveness).bag.hasRoom = false := by
  simp only [Run.loses, Bool.and_eq_true, Option.isNone_iff_eq_none, Bool.not_eq_true'] at h
  obtain ⟨⟨hending, hfailed⟩, hrefuses⟩ := h
  obtain ⟨herrors, hsame, hfull⟩ := failed_liveness hending
  rw [hsame.refuses] at hrefuses
  rw [herrors, hrefuses, Bool.true_and, Bool.or_eq_false_iff] at hfailed
  rw [hfull hfailed.2, hfailed.2]

/-! ## Behind the search -/

/-- Where code is generated and linked, no errors are found. -/
theorem failed_step {stage : Stage} (hstage : stage = .codegen ∨ stage = .link)
    (hending : (r.step stage).ending = none) : (r.step stage).failed = r.failed := by
  obtain ⟨-, ⟨-, -, hskip⟩ | ⟨-, span, parent, status, detail, r', hrun, hclose⟩⟩ :=
    step_cases hending
  · rw [hskip]
    rfl
  have hloose : Loose fun r r' => r'.failed = r.failed :=
    ⟨fun _ => rfl, fun h h' => h'.trans h, fun _ _ => rfl, fun _ _ => rfl, fun _ _ => rfl⟩
  have hkept : r'.failed = (r.opened stage).failed := by
    obtain rfl | rfl := hstage
    · have hkept := Leads.codegenStage hloose parent (r.opened .codegen)
      rwa [show codegenStage parent (r.opened .codegen) = .ok detail r' from hrun] at hkept
    · have hkept := Leads.linkStage hloose (fun _ _ => rfl) (r.opened .link)
      rwa [show linkStage (r.opened .link) = .ok detail r' from hrun] at hkept
  rw [hclose]
  exact hkept

/-- What is left of a compilation after the search for live names. -/
def Run.finish (r : Run) : Run := ((r.step .codegen).step .link).settle

/-- A compilation that ends well was not stopped before code generation. -/
theorem finish_of_none (hending : r.finish.ending = none) :
    r.ending = none ∧ r.finish.failed = r.failed := by
  obtain ⟨hending', -, -, hfailed⟩ := settle_same ((r.step .codegen).step .link)
  have hlink : ((r.step .codegen).step .link).ending = none := hending' ▸ hending
  have hcodegen := (step_cases hlink).1
  exact ⟨(step_cases hcodegen).1,
    hfailed.trans ((failed_step (.inr rfl) hlink).trans (failed_step (.inl rfl) hcodegen))⟩

/-- After errors no code is generated, so nothing can stop the compilation. -/
theorem finish_of_failed (hending : r.ending = none) (hfailed : r.failed = true) :
    r.finish.ending = none := by
  have hskip {r : Run} {stage : Stage} (h : r.ending = none ∧ r.failed = true)
      (hstrict : stage.toleratesErrors = false) :
      (r.step stage).ending = none ∧ (r.step stage).failed = true := by
    rw [Run.step, if_neg (by simp [h.1]), if_pos (by simp [h.2, hstrict])]
    exact h
  rw [Run.finish, (settle_same _).1]
  exact (hskip (hskip ⟨hending, hfailed⟩ rfl) rfl).1

/-- Compilations are settled alike. -/
theorem Alike.settle (hr : Alike r r') : Alike r.settle r'.settle := by
  have hsame : r'.ending.isSome = r.ending.isSome := by rw [hr.ending]
  unfold Run.settle
  rw [hsame]
  split
  · exact hr
  · exact { hr with }

/-- Compilations that agree on failure up to code generation are finished alike. -/
theorem Alike.finish (hr : Alike r r') (hfailed : r.ending = none → r'.failed = r.failed) :
    Alike r.finish r'.finish := by
  refine ((hr.step .codegen hfailed).step .link fun hending => ?_).settle
  have hending' := (hr.step .codegen hfailed).ending.trans hending
  rw [failed_step (.inl rfl) hending, failed_step (.inl rfl) hending',
    hfailed (step_cases hending).1]

/-- Two compilations that search for the same and agree on the errors come to the same. -/
theorem Alike.outcome (hr : Alike r r') (hfailed : r.ending = none → r'.failed = r.failed) :
    r'.finish.ending = r.finish.ending ∧ r'.finish.directives = r.finish.directives ∧
      r'.finish.live = r.finish.live := by
  have h := hr.finish hfailed
  refine ⟨h.ending, ?_, h.live⟩
  rw [Run.directives, Run.directives, h.ending, h.output]
  cases hending : r.finish.ending with
  | some e => rfl
  | none =>
    obtain ⟨hnone, hkept⟩ := finish_of_none hending
    rw [hkept, (finish_of_none (h.ending.trans hending)).2, hfailed hnone]

/-! ## Outcomes -/

/-- How a compilation came out: whether it was stopped, and whether it gives directives. -/
def Run.kind (r : Run) : Bool × Bool := (r.ending.isSome, r.directives.isSome)

/-- The request with another limit on the diagnostics that are kept. -/
def Options.capped (options : Options) (cap : Int) : Options := { options with maxDiagnostics := cap }

/-- A compilation up to the search for live names. -/
def searched (units : List Interchange.LoadedUnit) (options : Options) : Run :=
  (Stage.checking ++ [Stage.liveness]).foldl Run.step (.ofUnits units options)

variable {units : List Interchange.LoadedUnit} {options : Options}

/-- A compilation is the search for live names, and what is left after it. -/
theorem compile_eq (units : List Interchange.LoadedUnit) (options : Options) :
    compile units options = (searched units options).finish := by
  have hall : Stage.all = Stage.checking ++ [Stage.liveness] ++ [Stage.codegen, .link] := rfl
  rw [compile, Run.through, hall, List.foldl_append, List.foldl_cons, List.foldl_cons, List.foldl_nil,
    Run.finish, searched]

/-- Whether code is generated is decided by the search: without errors a compilation gives
directives, or generating code stops it. -/
theorem kind_eq_iff (hending : (searched units options).ending = none) :
    (compile units options).kind = (false, false) ↔ (searched units options).failed = true := by
  have hfinish := compile_eq units options
  constructor
  · intro hkind
    simp only [Run.kind, Prod.mk.injEq, Option.isSome_eq_false_iff, Option.isNone_iff_eq_none] at hkind
    have hnone : ¬ (compile units options).directives.isSome = true := by simp [hkind.2]
    rw [directives_isSome_iff hkind.1, Bool.not_eq_false] at hnone
    rwa [hfinish, (finish_of_none (hfinish ▸ hkind.1)).2] at hnone
  · intro hfailed
    have hending' := finish_of_failed hending hfailed
    have hnone : ¬ (compile units options).directives.isSome = true := by
      rw [directives_isSome_iff hending', hfinish, (finish_of_none hending').2, hfailed]
      decide
    rw [← hfinish] at hending'
    simp [Run.kind, hending', hnone]

/-- Two compilations that keep different numbers of diagnostics search for the same live names. -/
theorem alike_searched (units : List Interchange.LoadedUnit) (options : Options) (cap : Int) :
    Alike (searched units options) (searched units (options.capped cap)) ∧
      ((searched units options).ending = none →
        ((searched units (options.capped cap)).failed = (searched units options).failed ↔
          (searched units options).loses = (searched units (options.capped cap)).loses)) := by
  have hstart : Checking (.ofUnits units options) (.ofUnits units (options.capped cap)) :=
    ⟨⟨⟨rfl, _, rfl⟩, rfl, rfl, rfl, rfl, rfl, rfl, rfl, rfl⟩,
      fun _ => ⟨counted_ofUnits units options, counted_ofUnits units _⟩⟩
  have hbound := hstart.step .bind (by decide) fun _ => rfl
  have hkinds := hbound.step .kindcheck (by decide) (by simp)
  have htypes := hkinds.step .typecheck (by decide) (by simp)
  have hchecked := htypes.step .deferred (by decide) (by simp)
  have halike := hchecked.alike.step .liveness hchecked.failed
  refine ⟨halike, fun hending => ?_⟩
  exact failed_iff_loses hchecked.alike.toSameRequest (hchecked.failed (step_cases hending).1) hending
    (halike.ending.trans hending)

/-- How many diagnostics are kept decides about a compilation only where a remark on the request is
lost, which takes a full bag. Otherwise the outcome is of the same kind, with the same fault or the
same directives, and the same live names. -/
theorem outcome_of_cap (units : List Interchange.LoadedUnit) (options : Options) (cap : Int) :
    ((compile units options).kind = (compile units (options.capped cap)).kind ↔
      (searched units options).loses = (searched units (options.capped cap)).loses) ∧
    ((compile units options).kind = (compile units (options.capped cap)).kind →
      (compile units (options.capped cap)).ending = (compile units options).ending ∧
      (compile units (options.capped cap)).directives = (compile units options).directives ∧
      (compile units (options.capped cap)).live = (compile units options).live) ∧
    ((searched units options).loses = true → (searched units options).bag.hasRoom = false) := by
  obtain ⟨halike, hlost⟩ := alike_searched units options cap
  by_cases hsame : (searched units options).ending = none →
      (searched units (options.capped cap)).failed = (searched units options).failed
  · have houtcome := halike.outcome hsame
    rw [← compile_eq, ← compile_eq] at houtcome
    obtain ⟨hending, hdirectives, hlive⟩ := houtcome
    have hkind : (compile units options).kind = (compile units (options.capped cap)).kind := by
      rw [Run.kind, Run.kind, hdirectives, hending]
    have hloses : (searched units options).loses = (searched units (options.capped cap)).loses := by
      cases hended : (searched units options).ending with
      | none => exact (hlost hended).1 (hsame hended)
      | some e => simp [Run.loses, hended, halike.ending.trans hended]
    exact ⟨iff_of_true hkind hloses, fun _ => ⟨hending, hdirectives, hlive⟩, hasRoom_of_loses⟩
  · obtain ⟨hended, hdiffers⟩ := Classical.not_imp.1 hsame
    have hkind : (compile units options).kind ≠ (compile units (options.capped cap)).kind := by
      intro hkind
      refine hdiffers (Bool.eq_iff_iff.2 ?_)
      rw [← kind_eq_iff hended, ← kind_eq_iff (halike.ending.trans hended), hkind]
    exact ⟨iff_of_false hkind fun h => hdiffers ((hlost hended).2 h), fun h => absurd h hkind,
      hasRoom_of_loses⟩

/-- A program without an entry point, with a template that is never instantiated. -/
def unusedTemplate : List Interchange.LoadedUnit :=
  let here : Source.Location := ⟨"", 0, 0⟩
  [{ path := "", decls := [.function "f" ["T"] [] none [] false false here] }]

/-- The warning about the template fills a bag for one diagnostic. Then the missing entry point is not
noticed until linking comes upon it, and a library is compiled without the export it was asked for. -/
theorem cap_decides :
    (compile unusedTemplate { maxDiagnostics := 1 }).kind = (true, false) ∧
    (compile unusedTemplate { maxDiagnostics := 2 }).kind = (false, false) ∧
    (compile unusedTemplate { library := true, exports := ["g"], maxDiagnostics := 1 }).kind =
      (false, true) ∧
    (compile unusedTemplate { library := true, exports := ["g"], maxDiagnostics := 2 }).kind =
      (false, false) := by
  -- Evaluating a whole run with two diagnostics would sort them; the search alone does not.
  have hrefused {options : Options} (h : (searched unusedTemplate options).ending.isNone = true)
      (hfailed : (searched unusedTemplate options).failed = true) :
      (compile unusedTemplate options).kind = (false, false) :=
    (kind_eq_iff (Option.isNone_iff_eq_none.1 h)).2 hfailed
  exact ⟨by decide +kernel, hrefused (by decide +kernel) (by decide +kernel), by decide +kernel,
    hrefused (by decide +kernel) (by decide +kernel)⟩

end Qll.Compilation
