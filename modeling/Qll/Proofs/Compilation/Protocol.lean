import Qll.Proofs.Compilation.Stages
import Qll.Proofs.Program.Projections

/-!
# The protocol of the stages

A party that watches a compilation is told of every stage in order: that it begins and how it ended,
or that it was left out. What a stage does besides is not told, and takes back no error. So errors
are found once: the stage that finds the first ones ends in error, the other checking stages go on,
and the stages that need a program without errors are left out. Where a definition has no end the
stack runs out: the process dies with its stage, and the protocol breaks off.
-/

namespace Qll.Compilation

open Assembly (Directive)
open Qll.Computation

variable {r r' : Run} {α β : Type}

/-! ## Work within a stage -/

/-- The state behind a computation, however it ended. -/
def after : EStateM.Result Fault Run α → Run
  | .ok _ r | .error _ r => r

/-- The state behind a computation is related to the one before it. -/
def Leads (R : Run → Run → Prop) (x : StageM α) : Prop := ∀ r, R r (after (x r))

/-- A relation that does not look at the trace, nor at what code generation works on. -/
structure Loose (R : Run → Run → Prop) : Prop where
  refl : ∀ r, R r r
  trans : ∀ {r r₁ r₂}, R r r₁ → R r₁ r₂ → R r r₂
  trace : ∀ r trace, R r { r with trace }
  linkage : ∀ r linkage, R r { r with linkage }
  decl : ∀ r decl, R r { r with decl }

namespace Leads

variable {R : Run → Run → Prop} {x : StageM α} {f : α → StageM β}

/-- A value that is given back leads nowhere. -/
theorem pure (hR : Loose R) (a : α) : Leads R (Pure.pure a : StageM α) := fun r => hR.refl r

/-- A fault leads nowhere. -/
theorem throw (hR : Loose R) (e : Fault) : Leads R (MonadExcept.throw e : StageM α) :=
  fun r => hR.refl r

/-- A computation that reads the compilation leads where it does for each one. -/
theorem get {f : Run → StageM β} (hf : ∀ r, Leads R (f r)) :
    Leads R ((MonadState.get : StageM Run) >>= f) := fun r => hf r r

/-- A change leads where it says. -/
theorem update {g : Run → Run} (hg : ∀ r, R r (g r)) : Leads R (modify g : StageM PUnit) := hg

/-- Two computations in a row lead where each of them does. -/
theorem bind (hR : Loose R) (hx : Leads R x) (hf : ∀ a, Leads R (f a)) : Leads R (x >>= f) := by
  intro r
  have hfirst := hx r
  change R r (after (EStateM.bind x f r))
  unfold EStateM.bind
  cases hr : x r with
  | ok a r₁ =>
    rw [hr] at hfirst
    exact hR.trans hfirst (hf a r₁)
  | error e r₁ =>
    rw [hr] at hfirst
    exact hfirst

/-- A loop leads where its rounds do. -/
theorem forM (hR : Loose R) {g : β → StageM PUnit} (hg : ∀ b, Leads R (g b)) (l : List β) :
    Leads R (l.forM g : StageM PUnit) := by
  induction l with
  | nil => exact pure hR _
  | cons b l ih => exact bind hR (hg b) fun _ => ih

/-- Work on the linkage leads nowhere that matters. -/
theorem onLinkage (hR : Loose R) (x : Codegen.LinkM α) : Leads R (onLinkage x) := by
  intro r
  unfold Compilation.onLinkage
  cases x r.linkage with
  | ok a linkage => exact hR.linkage r linkage
  | error e linkage => exact hR.linkage r linkage

/-- Work within a span leads where the work does. -/
theorem spanned (hR : Loose R) {scope : Trace.Scope} {name : String} {parent : Nat}
    {work : StageM String} (hwork : Leads R work) : Leads R (spanned scope name parent work) := by
  intro r
  have hleave (detail : String) : Leads R (modify fun r' : Run =>
      { r' with trace := r'.trace.leave (r.trace.enter scope name parent).1 detail }) :=
    update fun r' => hR.trace r' _
  have hrest := bind hR hwork hleave
  exact hR.trans (hR.trace r _) (hrest _)

/-- Code generation leads nowhere that matters. -/
theorem codegenStage (hR : Loose R) (parent : Nat) : Leads R (codegenStage parent) := by
  have hdecl (p : String × Codegen.LinkM Unit) : Leads R (compileDecl parent p.1 p.2) :=
    bind hR (update fun r => hR.decl r _) fun _ =>
      bind hR (spanned hR (bind hR (onLinkage hR p.2) fun _ => pure hR _)) fun _ =>
        update fun r => hR.decl r _
  exact bind hR (update fun r => hR.linkage r _) fun _ => get fun r =>
    bind hR (forM hR hdecl _) fun _ => pure hR _

/-- Linking changes the output only. -/
theorem linkStage (hR : Loose R) (houtput : ∀ r output, R r { r with output }) :
    Leads R linkStage := by
  have hlast (output : List Directive) : Leads R
      ((modify fun r : Run => { r with output := some output }) >>= fun _ =>
        Pure.pure (Nat.repr output.length ++ " directives")) :=
    bind hR (update fun r => houtput r _) fun _ => pure hR _
  refine get fun r => ?_
  split
  · exact bind hR (onLinkage hR _) hlast
  · cases r.entry with
    | none => exact bind hR (throw hR _) hlast
    | some f =>
      dsimp only
      cases Codegen.resultOf (.ofStore r.program.types) f.result with
      | error e => exact bind hR (throw hR _) hlast
      | ok result => exact bind hR (onLinkage hR _) hlast

/-- The stages that check a program only run the checker. -/
theorem checking (hR : Loose R) (hadopt : ∀ r s, R r (r.adopt s)) {stage : Stage}
    (hstage : stage ∈ Stage.checking) (parent : Nat) : Leads R (perform stage parent) := by
  have hprogram {α : Type} (x : Check.CheckM α) : Leads R (onProgram x) := by
    intro r
    unfold onProgram
    cases x Program.directory r.program with
    | ok a s => exact hadopt r s
    | error e s => exact hadopt r s
  have hcounts : Leads R counts := get fun _ => pure hR _
  have hchecks (x : Check.CheckM Unit) : Leads R (onProgram x >>= fun _ => counts) :=
    bind hR (hprogram x) fun _ => hcounts
  simp only [Stage.checking, List.mem_cons, List.not_mem_nil, or_false] at hstage
  obtain rfl | rfl | rfl | rfl := hstage
  · refine get fun r => bind hR (forM hR (fun u => spanned hR (pure hR _)) _) fun _ => ?_
    exact bind hR (hprogram _) fun _ => bind hR (hprogram _) fun _ => pure hR _
  · exact hchecks _
  · exact hchecks _
  · refine get fun r => bind hR (hprogram _) fun b => ?_
    split
    · exact hcounts
    · exact pure hR _

end Leads

/-- What no work within a stage changes, and that no error leaves the bag. -/
structure Within (r r' : Run) : Prop where
  options : r'.options = r.options
  events : r'.events = r.events
  ending : r'.ending = r.ending
  errors : r.bag.hasErrors = true → r'.bag.hasErrors = true

/-- What happens within a stage does not depend on traces and linkage. -/
theorem loose_within : Loose Within where
  refl _ := ⟨rfl, rfl, rfl, id⟩
  trans h h' := ⟨h'.options.trans h.options, h'.events.trans h.events, h'.ending.trans h.ending,
    fun hr => h'.errors (h.errors hr)⟩
  trace _ _ := ⟨rfl, rfl, rfl, id⟩
  linkage _ _ := ⟨rfl, rfl, rfl, id⟩
  decl _ _ := ⟨rfl, rfl, rfl, id⟩

/-- What is in a bag stays there. -/
theorem hasErrors_add {b : Diagnostic.Bag} (d : Diagnostic) (h : b.hasErrors = true) :
    (b.add d).hasErrors = true := by
  unfold Diagnostic.Bag.add
  split
  · simp only [Diagnostic.Bag.hasErrors, List.any_append, Bool.or_eq_true] at h ⊢
    exact .inl h
  · exact h

/-- Errors stay in a bag when further diagnostics are added. -/
theorem hasErrors_addAll {b : Diagnostic.Bag} (ds : List Diagnostic) (h : b.hasErrors = true) :
    (b.addAll ds).hasErrors = true := by
  induction ds generalizing b with
  | nil => exact h
  | cons d ds ih => exact ih (hasErrors_add d h)

/-- The search for live names stays within its stage. -/
theorem leads_livenessStage : Leads Within livenessStage := by
  intro r
  obtain ⟨remarks, -, ⟨_, _, _, -, -, hrun⟩ | ⟨_, hrun⟩⟩ := livenessStage_cases r
  · rw [hrun r (.refl r)]
    exact ⟨rfl, rfl, rfl, hasErrors_addAll remarks⟩
  · rw [hrun r (.refl r)]
    exact ⟨rfl, rfl, rfl, hasErrors_addAll remarks⟩

/-- No stage speaks for itself. -/
theorem leads_perform (stage : Stage) (parent : Nat) : Leads Within (perform stage parent) := by
  by_cases hstage : stage ∈ Stage.checking
  · exact .checking loose_within (fun r s => ⟨rfl, rfl, rfl, hasErrors_addAll _⟩) hstage parent
  cases stage with
  | liveness => exact leads_livenessStage
  | codegen => exact .codegenStage loose_within parent
  | link => exact .linkStage loose_within fun _ _ => ⟨rfl, rfl, rfl, id⟩
  | _ => exact absurd (by decide) hstage

/-! ## Errors stay -/

/-- A stage takes back no error. The first stage starts without any. -/
theorem failed_of_perform {stage : Stage} {parent : Nat} {text : String} (hstage : stage ≠ .bind)
    (h : perform stage parent r = .ok text r') (hfailed : r.failed = true) : r'.failed = true := by
  have hwithin := leads_perform stage parent r
  rw [h] at hwithin
  simp only [Run.failed, Bool.or_eq_true] at hfailed ⊢
  refine hfailed.imp (fun hprogram => ?_) hwithin.errors
  have hchecks {x : Check.CheckM Unit}
      (hx : ∀ {u s}, x Program.directory r.program = .ok u s → r.program.Grows s)
      (h : (onProgram x >>= fun _ => counts) r = .ok text r') : r'.program.failed = true := by
    obtain ⟨s, hs, rfl⟩ := checks_ok h
    exact (hx hs).failed hprogram
  cases stage with
  | bind => exact absurd rfl hstage
  | kindcheck => exact hchecks Program.grows_kindcheck h
  | typecheck => exact hchecks Program.grows_typecheck h
  | deferred =>
    obtain ⟨b, s, hdeferred, rfl⟩ := deferredStage_ok h
    exact Program.failed_deferred hdeferred hprogram
  | liveness => exact (livenessStage_ok h).program ▸ hprogram
  | codegen => exact (codegenStage_ok h).1.program ▸ hprogram
  | link =>
    have hsame := Leads.linkStage (R := fun r r' => r'.program = r.program)
      ⟨fun _ => rfl, fun h h' => h'.trans h, fun _ _ => rfl, fun _ _ => rfl, fun _ _ => rfl⟩
      (fun _ _ => rfl) r
    rw [show linkStage r = .ok text r' from h] at hsame
    exact (show r'.program = r.program from hsame) ▸ hprogram

/-! ## Steps -/

/-- What is told of a compilation: the stages with how far they are. -/
def Run.told (r : Run) : List (Stage × Status) := r.events.toList.map fun e => (e.stage, e.status)

/-- How a step goes that is not called off: the stage is left out after errors, it ends, it stops the
compilation with a fault, or the process dies in it and nothing more is told. -/
inductive Stepped (stage : Stage) (r r' : Run) : Prop
  | skipped (hfailed : r.failed = true) (hstrict : stage.toleratesErrors = false)
      (hending : r'.ending = none) (hsame : r'.failed = r.failed)
      (htold : r'.told = r.told ++ [(stage, .skipped)])
  | ended (hruns : r.failed = false ∨ stage.toleratesErrors = true) (hending : r'.ending = none)
      (hkeeps : stage ≠ .bind → r.failed = true → r'.failed = true)
      (htold : r'.told = r.told ++
        [(stage, Status.working), (stage, if r'.failed && !r.failed then .error else .done)])
  | stopped (decl : String) (fault : Fault) (hfault : fault ≠ .endless)
      (hruns : r.failed = false ∨ stage.toleratesErrors = true)
      (hending : r'.ending = some (.internal stage decl fault))
      (htold : r'.told = r.told ++ [(stage, Status.working), (stage, .error)])
  | died (hruns : r.failed = false ∨ stage.toleratesErrors = true)
      (hending : r'.ending = some (.overflow stage))
      (htold : r'.told = r.told ++ [(stage, Status.working)])

/-- A compilation that may go on: nobody calls it off, and the watcher does not fail. -/
structure Going (r : Run) : Prop where
  called : r.options.cancelled = false
  watched : ∀ stage, r.options.watcher stage = none

/-- An event is told behind the others. -/
theorem told_push (r : Run) (e : Event) :
    { r with events := r.events.push e }.told = r.told ++ [(e.stage, e.status)] := by
  simp [Run.told]

/-- The end of a stage is told behind all else. -/
theorem told_close (stage : Stage) (span : Option Trace.Span) (status : Status)
    (note detail : String) :
    (r.close stage span status note detail).told = r.told ++ [(stage, status)] := by
  simp [Run.told, Run.close]

/-- A stage that runs goes in one of the ways of a step. -/
theorem stepped_runStage (stage : Stage) (hr : Going r) (hending : r.ending = none)
    (hruns : r.failed = false ∨ stage.toleratesErrors = true) :
    Going (r.runStage stage) ∧ Stepped stage r (r.runStage stage) := by
  obtain ⟨span, hrun⟩ := runStage_eq stage (hr.watched stage)
  have hwithin := leads_perform stage (Trace.Span.parentId span) (r.opened stage)
  have htold {r' : Run} (h : r'.events = (r.opened stage).events) :
      r'.told = r.told ++ [(stage, .working)] := by
    rw [Run.told, h]
    exact told_push r _
  have hgoing {r' : Run} (h : r'.options = r.options) : Going r' :=
    ⟨h ▸ hr.called, h ▸ hr.watched⟩
  rw [hrun]
  cases hperform : perform stage (Trace.Span.parentId span) (r.opened stage) with
  | ok detail r' =>
    rw [hperform] at hwithin
    obtain ⟨hoptions, hevents, hended, -⟩ : Within (r.opened stage) r' := hwithin
    have hkeeps (hstage : stage ≠ .bind) (hfailed : r.failed = true) : r'.failed = true :=
      failed_of_perform hstage hperform hfailed
    refine ⟨hgoing hoptions, .ended hruns (hended.trans hending) hkeeps ?_⟩
    rw [Run.closed, told_close, htold hevents, List.append_assoc]
    rfl
  | error fault r' =>
    rw [hperform] at hwithin
    obtain ⟨hoptions, hevents, -, -⟩ : Within (r.opened stage) r' := hwithin
    obtain hclosed | ⟨hfault, hclosed⟩ := r.closed_error r' stage span fault
    · rw [hclosed]
      exact ⟨hgoing hoptions, .died hruns rfl (htold hevents)⟩
    · rw [hclosed]
      refine ⟨hgoing hoptions, .stopped r'.decl fault hfault hruns rfl ?_⟩
      rw [told_close]
      exact (congrArg (· ++ [(stage, .error)]) (htold hevents)).trans (List.append_assoc ..)

/-- A step that is not called off goes in one of its ways. -/
theorem stepped_step (stage : Stage) (hr : Going r) (hending : r.ending = none) :
    Going (r.step stage) ∧ Stepped stage r (r.step stage) := by
  unfold Run.step
  rw [if_neg (by simp [hending])]
  split
  next hskip =>
    simp only [Bool.and_eq_true, Bool.not_eq_true'] at hskip
    exact ⟨⟨hr.called, hr.watched⟩, .skipped hskip.1 hskip.2 hending rfl (told_push r _)⟩
  next hskip =>
    rw [if_neg (by simp [hr.called])]
    exact stepped_runStage stage hr hending (by cases hf : r.failed <;> simp_all)

/-- Nothing happens after a compilation stopped. -/
theorem foldl_step_of_ending (stages : List Stage) (h : r.ending.isSome = true) :
    stages.foldl Run.step r = r := by
  induction stages with
  | nil => rfl
  | cons stage stages ih => rw [List.foldl_cons, Run.step, if_pos h, ih]

/-! ## Runs -/

/-- What is told behind the stages that ended: the others are left out, unless a fault stopped the
compilation. Of a stage in which the process died it is told that it began. -/
def Run.toldLast (r : Run) (left : List Stage) : List (Stage × Status) :=
  match r.ending with
  | none => left.map (·, .skipped)
  | some (.overflow stage) => [(stage, .working)]
  | some _ => []

/-- What the stages of a compilation come to: those that ran, each with how it ended, and those that
did not. -/
structure Went (stages : List Stage) (r r' : Run) (ran : List (Stage × Status))
    (left : List Stage) : Prop where
  stages : stages = ran.map Prod.fst ++ left
  ended : ∀ p ∈ ran, p.2 = .done ∨ p.2 = .error
  told : r'.told = r.told ++ ran.flatMap (fun p => [(p.1, .working), p]) ++ r'.toldLast left
  stopped : ∀ e, r'.ending = some e →
    (∃ stage decl fault, e = .internal stage decl fault ∧ fault ≠ .endless ∧
      ran.getLast? = some (stage, .error)) ∨
    ∃ stage, e = .overflow stage ∧ left.head? = some stage
  failed : r'.ending = none →
    (r'.failed = true ↔ r.failed = true ∨ ∃ p ∈ ran, p.2 = .error)
  once : r'.ending = none → ran.countP (·.2 = .error) + (if r.failed then 1 else 0) ≤ 1
  left : r'.ending = none → left ≠ [] → r'.failed = true

/-- No stages come to nothing. -/
theorem went_nil (hending : r.ending = none) : Went [] r r [] [] where
  stages := rfl
  ended := by simp
  told := by simp [Run.toldLast, hending]
  stopped := by simp [hending]
  failed _ := by simp
  once _ := by split <;> simp
  left _ h := absurd rfl h

/-- After errors all stages that do not tolerate them are left out. -/
theorem went_skipped {stages : List Stage} (hr : Going r) (hending : r.ending = none)
    (hfailed : r.failed = true) (hstrict : ∀ stage ∈ stages, stage.toleratesErrors = false) :
    (stages.foldl Run.step r).ending = none ∧ Went stages r (stages.foldl Run.step r) [] stages := by
  induction stages generalizing r with
  | nil => exact ⟨hending, went_nil hending⟩
  | cons stage stages ih =>
    rw [List.forall_mem_cons] at hstrict
    obtain ⟨hgoing, hstep⟩ := stepped_step stage hr hending
    rw [List.foldl_cons]
    cases hstep with
    | skipped _ _ hending₁ hsame htold =>
      obtain ⟨hnone, hrest⟩ := ih hgoing hending₁ (hsame.trans hfailed) hstrict.2
      refine ⟨hnone, rfl, by simp, ?_, by simp [hnone], fun h => hsame ▸ hrest.failed h, fun _ => ?_,
        fun h _ => (hrest.failed h).2 (.inl (hsame.trans hfailed))⟩
      · rw [hrest.told, htold, Run.toldLast, Run.toldLast, hnone]
        simp
      · split <;> simp
    | ended hruns => simp [hfailed, hstrict.1] at hruns
    | stopped _ _ _ hruns => simp [hfailed, hstrict.1] at hruns
    | died hruns => simp [hfailed, hstrict.1] at hruns

/-- A stage that ends is told before the rest. -/
theorem Went.cons {stage : Stage} {stages : List Stage} {r₁ : Run} {ran : List (Stage × Status)}
    {left : List Stage} (h : Went stages r₁ r' ran left)
    (hkeeps : r.failed = true → r₁.failed = true)
    (htold : r₁.told = r.told ++
      [(stage, Status.working), (stage, if r₁.failed && !r.failed then .error else .done)]) :
    Went (stage :: stages) r r' ((stage, if r₁.failed && !r.failed then .error else .done) :: ran)
      left where
  stages := by simp [h.stages]
  ended := by
    simp only [List.forall_mem_cons]
    exact ⟨by split <;> simp, h.ended⟩
  told := by simp [h.told, htold]
  stopped e he := by
    obtain ⟨stage', decl, fault, rfl, hfault, hlast⟩ | hdied := h.stopped e he
    · exact .inl ⟨stage', decl, fault, rfl, hfault, by simp [List.getLast?_cons, hlast]⟩
    · exact .inr hdied
  failed hnone := by
    rw [h.failed hnone]
    cases hr : r.failed <;> cases hr₁ : r₁.failed <;> simp_all
  once hnone := by
    have honce := h.once hnone
    rw [List.countP_cons]
    cases hr : r.failed <;> cases hr₁ : r₁.failed <;> simp [hr, hr₁] at hkeeps honce ⊢ <;>
      assumption
  left hnone := h.left hnone

/-- A fault is told last. -/
theorem went_stopped {stage : Stage} {stages : List Stage} {decl : String} {fault : Fault}
    (hfault : fault ≠ .endless) (hending : r'.ending = some (.internal stage decl fault))
    (htold : r'.told = r.told ++ [(stage, Status.working), (stage, .error)]) :
    Went (stage :: stages) r r' [(stage, .error)] stages where
  stages := rfl
  ended := by simp
  told := by simp [htold, Run.toldLast, hending]
  stopped e he := by
    rw [hending] at he
    cases he
    exact .inl ⟨stage, decl, fault, rfl, hfault, rfl⟩
  failed h := by simp [hending] at h
  once h := by simp [hending] at h
  left h := by simp [hending] at h

/-- Of a stage in which the process dies only the beginning is told. -/
theorem went_died {stage : Stage} {stages : List Stage} (hending : r'.ending = some (.overflow stage))
    (htold : r'.told = r.told ++ [(stage, Status.working)]) :
    Went (stage :: stages) r r' [] (stage :: stages) where
  stages := rfl
  ended := by simp
  told := by simp [htold, Run.toldLast, hending]
  stopped e he := by
    rw [hending] at he
    cases he
    exact .inr ⟨stage, rfl, rfl⟩
  failed h := by simp [hending] at h
  once h := by simp [hending] at h
  left h := by simp [hending] at h

/-- The stages that tolerate errors come before those that do not; names are bound before all. -/
def Ordered (stages : List Stage) : Prop :=
  .bind ∉ stages.tail ∧
    stages.Pairwise fun a b => a.toleratesErrors = false → b.toleratesErrors = false ∨ a = .bind

instance : DecidablePred Ordered := fun _ => inferInstanceAs (Decidable (_ ∧ _))

/-- Stages in order go one after another. -/
theorem went {stages : List Stage} (hr : Going r) (hending : r.ending = none)
    (hfirst : stages.head? = some .bind → r.failed = false) (hordered : Ordered stages) :
    ∃ ran left, Went stages r (stages.foldl Run.step r) ran left := by
  induction stages generalizing r with
  | nil => exact ⟨[], [], went_nil hending⟩
  | cons stage stages ih =>
    obtain ⟨hbind, horder⟩ := hordered
    obtain ⟨hbehind, horder⟩ := List.pairwise_cons.1 horder
    obtain ⟨hgoing, hstep⟩ := stepped_step stage hr hending
    rw [List.foldl_cons]
    cases hstep with
    | skipped hfailed hstrict =>
      have hstage : stage ≠ .bind := by
        rintro rfl
        simp [hfirst rfl] at hfailed
      have hall : ∀ s ∈ stage :: stages, s.toleratesErrors = false :=
        List.forall_mem_cons.2 ⟨hstrict, fun s hs =>
          (hbehind s hs hstrict).resolve_right hstage⟩
      exact ⟨[], stage :: stages, (went_skipped hr hending hfailed hall).2⟩
    | ended _ hending₁ hkeeps htold =>
      have hfirst₁ : stages.head? ≠ some .bind := fun h =>
        hbind (List.mem_of_mem_head? h)
      obtain ⟨ran, left, hrest⟩ := ih hgoing hending₁ (fun h => absurd h hfirst₁)
        ⟨fun h => hbind (List.mem_of_mem_tail h), horder⟩
      have hfailed₁ (hfailed : r.failed = true) : (r.step stage).failed = true := by
        refine hkeeps ?_ hfailed
        rintro rfl
        simp [hfirst rfl] at hfailed
      exact ⟨_, left, hrest.cons hfailed₁ htold⟩
    | stopped decl fault hfault _ hending₁ htold =>
      rw [foldl_step_of_ending stages (by simp [hending₁])]
      exact ⟨_, stages, went_stopped hfault hending₁ htold⟩
    | died _ hending₁ htold =>
      rw [foldl_step_of_ending stages (by simp [hending₁])]
      exact ⟨_, _, went_died hending₁ htold⟩

/-! ## Whole compilations -/

/-- A compilation may go on after any stages. -/
theorem going_foldl (stages : List Stage) (hr : Going r) : Going (stages.foldl Run.step r) := by
  induction stages generalizing r with
  | nil => exact hr
  | cons stage stages ih =>
    rw [List.foldl_cons]
    cases hending : r.ending with
    | none => exact ih (stepped_step stage hr hending).1
    | some e =>
      rw [Run.step, if_pos (by simp [hending])]
      exact ih hr

/-- Errors stay while stages follow one another. -/
theorem failed_foldl {stages : List Stage} (hr : Going r) (hbind : .bind ∉ stages)
    (hending : (stages.foldl Run.step r).ending = none) (hfailed : r.failed = true) :
    r.ending = none ∧ (stages.foldl Run.step r).failed = true := by
  induction stages generalizing r with
  | nil => exact ⟨hending, hfailed⟩
  | cons stage stages ih =>
    rw [List.mem_cons, not_or] at hbind
    rw [List.foldl_cons] at hending ⊢
    have hnone : r.ending = none := by
      cases he : r.ending with
      | none => rfl
      | some e =>
        rw [Run.step, if_pos (by simp [he]), foldl_step_of_ending _ (by simp [he]), he] at hending
        cases hending
    obtain ⟨hgoing, hstep⟩ := stepped_step stage hr hnone
    have hfailed₁ : (r.step stage).failed = true := by
      cases hstep with
      | skipped _ _ _ hsame => exact hsame.trans hfailed
      | ended _ _ hkeeps => exact hkeeps (Ne.symm hbind.1) hfailed
      | stopped _ _ _ _ hended | died _ hended =>
        rw [foldl_step_of_ending _ (by simp [hended]), hended] at hending
        cases hending
    exact ⟨hnone, (ih hgoing hbind.2 hending hfailed₁).2⟩

/-- Only linking gives directives. -/
theorem output_step {stage : Stage} (hstage : stage ∈ Stage.checking) (hr : Going r) :
    (r.step stage).output = r.output := by
  unfold Run.step
  split
  · rfl
  split
  · rfl
  split
  · rfl
  obtain ⟨span, hrun⟩ := runStage_eq stage (hr.watched stage)
  have hsame := Leads.checking (R := fun r r' => r'.output = r.output)
    ⟨fun _ => rfl, fun h h' => h'.trans h, fun _ _ => rfl, fun _ _ => rfl, fun _ _ => rfl⟩
    (fun _ _ => rfl) hstage (Trace.Span.parentId span) (r.opened stage)
  rw [hrun]
  cases hperform : perform stage (Trace.Span.parentId span) (r.opened stage) with
  | ok detail r' => rw [hperform] at hsame; exact hsame
  | error fault r' =>
    rw [hperform] at hsame
    obtain hclosed | ⟨-, hclosed⟩ := r.closed_error r' stage span fault
    · rw [hclosed]
      exact hsame
    · rw [hclosed]
      exact hsame

/-- The stages of checking give no output. -/
theorem output_foldl {stages : List Stage} (hstages : ∀ stage ∈ stages, stage ∈ Stage.checking)
    (hr : Going r) : (stages.foldl Run.step r).output = r.output := by
  induction stages generalizing r with
  | nil => rfl
  | cons stage stages ih =>
    rw [List.forall_mem_cons] at hstages
    exact (ih hstages.2 (going_foldl [stage] hr)).trans (output_step hstages.1 hr)

variable {units : List Interchange.LoadedUnit} {options : Options}

/-- What is told of some stages. Those that ran are told in order, each that it begins and how it
ended; then those that are left, unless a fault stopped the compilation, which is told last. If the
process died, all that is told besides is that the first of those left began. -/
structure Protocol (stages : List Stage) (r : Run) (ran : List (Stage × Status))
    (left : List Stage) : Prop where
  stages : stages = ran.map Prod.fst ++ left
  ended : ∀ p ∈ ran, p.2 = .done ∨ p.2 = .error
  told : r.told = ran.flatMap (fun p => [(p.1, .working), p]) ++ r.toldLast left
  once : r.ending = none → ran.countP (·.2 = .error) ≤ 1
  stopped : ∀ e, r.ending = some e →
    (∃ stage decl fault, e = .internal stage decl fault ∧ fault ≠ .endless ∧
      r.told.getLast? = some (stage, .error)) ∨
    ∃ stage, e = .overflow stage ∧ left.head? = some stage

/-- The stages that need a program without errors. -/
def Stage.strict : List Stage := [.liveness, .codegen, .link]

/-- What is told of a settled compilation is what was told before. -/
theorem told_settle (r : Run) : r.settle.told = r.told := by
  unfold Run.settle
  split <;> rfl

/-- A new compilation follows the protocol. -/
theorem Went.protocol {stages : List Stage} {ran : List (Stage × Status)} {left : List Stage}
    (h : Went stages (.ofUnits units options) r' ran left) :
    Protocol stages r'.settle ran left := by
  obtain ⟨hending, -, -, -⟩ := settle_same r'
  have htold : r'.told = ran.flatMap (fun p => [(p.1, .working), p]) ++ r'.toldLast left := h.told
  refine ⟨h.stages, h.ended, ?_, fun hnone => ?_, fun e he => ?_⟩
  · rw [told_settle, htold, Run.toldLast, Run.toldLast, hending]
  · exact Nat.le_trans (Nat.le_add_right _ _) (h.once (hending ▸ hnone))
  · rw [hending] at he
    obtain ⟨stage, decl, fault, rfl, hfault, hlast⟩ | hdied := h.stopped e he
    · refine .inl ⟨stage, decl, fault, rfl, hfault, ?_⟩
      rw [told_settle, htold, Run.toldLast, he]
      obtain ⟨front, rfl⟩ := List.getLast?_eq_some_iff.1 hlast
      simp
    · exact .inr hdied

/-- A stage is told only when it is asked for. -/
theorem Went.mem {stages : List Stage} {ran : List (Stage × Status)} {left : List Stage}
    {p : Stage × Status} (h : Went stages r r' ran left) (hp : p ∈ r'.told) :
    p ∈ r.told ∨ p.1 ∈ stages := by
  rw [h.told, List.append_assoc, List.mem_append] at hp
  refine hp.imp_right fun hp => ?_
  rw [h.stages, List.mem_append]
  obtain hp | hp := List.mem_append.1 hp
  · obtain ⟨q, hq, hp⟩ := List.mem_flatMap.1 hp
    have hfst : p.1 = q.1 := by
      simp only [List.mem_cons, List.not_mem_nil, or_false] at hp
      obtain rfl | rfl := hp <;> rfl
    exact .inl (hfst ▸ List.mem_map_of_mem hq)
  · cases hending : r'.ending with
    | none =>
      rw [Run.toldLast, hending] at hp
      obtain ⟨s, hs, rfl⟩ := List.mem_map.1 hp
      exact .inr hs
    | some e =>
      obtain ⟨_, _, _, rfl, -⟩ | ⟨stage, rfl, hhead⟩ := h.stopped e hending
      · rw [Run.toldLast, hending] at hp
        cases hp
      · rw [Run.toldLast, hending, List.mem_singleton] at hp
        rw [hp]
        exact .inr (List.mem_of_mem_head? hhead)

/-- After errors no stage begins that needs a program without errors. -/
theorem not_told_of_failed {before middle behind : List Stage} {stage : Stage}
    (hgoing : Going (.ofUnits units options)) (hstage : stage ∈ Stage.strict)
    (hall : Stage.all = before ++ middle ++ stage :: behind)
    (hfailed : (before.foldl Run.step (.ofUnits units options)).failed = true) :
    (stage, .working) ∉ (compile units options).told := by
  obtain ⟨rest, rfl⟩ : ∃ rest, before = .bind :: rest := by
    cases before with
    | nil => cases hfailed
    | cons first rest => exact ⟨rest, by rw [(List.cons.inj hall).1]⟩
  have hnodup : (.bind :: rest ++ middle ++ stage :: behind).Nodup := hall ▸ by decide
  have horder : Ordered (.bind :: rest ++ middle ++ stage :: behind) := hall ▸ by decide
  obtain ⟨hfront, hbehind, -⟩ := List.pairwise_append.1 horder.2
  obtain ⟨hnodup, -, hnew⟩ := List.nodup_append.1 hnodup
  have hrest : .bind ∉ rest ++ middle := (List.nodup_cons.1 hnodup).1
  have hmem (p : Stage × Status)
      (hp : p ∈ ((.bind :: rest ++ middle).foldl Run.step (.ofUnits units options)).told) :
      p.1 ≠ stage := by
    obtain ⟨ran, left, hwent⟩ : ∃ ran left, Went (.bind :: rest ++ middle) (.ofUnits units options)
        _ ran left := went hgoing rfl (fun _ => rfl) ⟨hrest, hfront⟩
    have hp := (hwent.mem hp).resolve_left (by simp [Run.told, Run.ofUnits])
    exact hnew _ hp _ List.mem_cons_self
  rw [compile, Run.through, told_settle, hall, List.foldl_append]
  cases hending : ((.bind :: rest ++ middle).foldl Run.step (.ofUnits units options)).ending with
  | some e =>
    rw [foldl_step_of_ending _ (by simp only [hending, Option.isSome_some])]
    exact fun htold => hmem _ htold rfl
  | none =>
    have hstill : ((.bind :: rest ++ middle).foldl Run.step
        (.ofUnits units options)).failed = true := by
      rw [List.foldl_append] at hending ⊢
      exact (failed_foldl (going_foldl _ hgoing)
        (fun h => hrest (List.mem_append_right _ h)) hending hfailed).2
    have hstage : stage.toleratesErrors = false := by
      simp only [Stage.strict, List.mem_cons, List.not_mem_nil, or_false] at hstage
      obtain rfl | rfl | rfl := hstage <;> rfl
    have hstrict : ∀ s ∈ stage :: behind, s.toleratesErrors = false := by
      refine List.forall_mem_cons.2 ⟨hstage, fun s hs => ?_⟩
      refine ((List.pairwise_cons.1 hbehind).1 s hs hstage).resolve_right fun h => ?_
      exact hnew .bind List.mem_cons_self stage List.mem_cons_self h.symm
    obtain ⟨hnone, hskipped⟩ := went_skipped (going_foldl _ hgoing) hending hstill hstrict
    rw [hskipped.told, List.flatMap_nil, List.append_nil, List.mem_append, Run.toldLast, hnone]
    rintro (htold | htold)
    · exact hmem _ htold rfl
    · obtain ⟨s, -, hs⟩ := List.mem_map.1 htold
      cases hs

/-- A compilation without errors gives directives: it ran to its end, and the last stage links. -/
theorem directives_isSome_iff (hending : (compile units options).ending = none) :
    (compile units options).directives.isSome = true ↔ (compile units options).failed = false := by
  have hall : Stage.all = Stage.checking ++ [Stage.liveness, .codegen] ++ [Stage.link] := rfl
  obtain ⟨r, hcompile⟩ : ∃ r : Run, compile units options = (r.step .link).settle := by
    refine ⟨(Stage.checking ++ [Stage.liveness, .codegen]).foldl Run.step (.ofUnits units options), ?_⟩
    rw [compile, Run.through, hall, List.foldl_append, List.foldl_cons, List.foldl_nil]
  obtain ⟨hending', -, houtput, hfailed⟩ := settle_same (r.step .link)
  rw [hcompile] at hending ⊢
  rw [hending'] at hending
  rw [Run.directives, hending', hending, houtput, hfailed]
  cases hstep : (r.step .link).failed with
  | true => simp
  | false =>
    obtain ⟨-, -, hran⟩ := step_ok hending (.inr (.inr hstep))
    obtain ⟨-, ds, _, _, hds, -⟩ := hran.link
    simp [hds]

/-- A new compilation is without errors exactly if all its stages are told to be done. -/
theorem Went.failed_iff {stages : List Stage} {ran : List (Stage × Status)} {left : List Stage}
    (h : Went stages (.ofUnits units options) r' ran left) (hending : r'.ending = none) :
    r'.failed = false ↔ r'.told = stages.flatMap fun s => [(s, .working), (s, .done)] := by
  have htold : r'.told = ran.flatMap (fun p => [(p.1, .working), p]) ++ left.map (·, .skipped) := by
    have htold := h.told
    rw [Run.toldLast, hending] at htold
    exact htold
  have hfailed : r'.failed = true ↔ ∃ p ∈ ran, p.2 = .error := by
    rw [h.failed hending]
    exact or_iff_right Bool.false_ne_true
  constructor
  · intro hnone
    obtain rfl : left = [] := by
      by_contra hleft
      simp [h.left hending hleft] at hnone
    have hdone : ∀ p ∈ ran, p = (p.1, .done) := fun p hp =>
      Prod.ext rfl ((h.ended p hp).resolve_right fun herror => by
        simp [hfailed.2 ⟨p, hp, herror⟩] at hnone)
    rw [htold, h.stages, List.map_nil, List.append_nil, List.append_nil, List.flatMap_map]
    exact List.flatMap_congr fun p hp => by rw [hdone p hp]
  · intro hall
    rw [Bool.eq_false_iff]
    intro htrue
    obtain ⟨p, hp, herror⟩ := hfailed.1 htrue
    have hmem : p ∈ r'.told := by
      rw [htold]
      exact List.mem_append_left _ (List.mem_flatMap.2 ⟨p, hp, by simp⟩)
    rw [hall] at hmem
    obtain ⟨s, -, hp⟩ := List.mem_flatMap.1 hmem
    simp only [List.mem_cons, List.not_mem_nil, or_false] at hp
    obtain rfl | rfl := hp <;> cases herror

/-- A compilation that is not called off tells its stages by the protocol, up to where the process dies,
and so does a check. No stage that needs a program without errors begins after one was counted or put
into the bag. If the compilation came to its end, it gives directives exactly if all its stages are told
to be done, and then no error is in the bag; a check gives none. -/
theorem stages_told (units : List Interchange.LoadedUnit) (options : Options)
    (called : options.cancelled = false) (watched : ∀ stage, options.watcher stage = none) :
    (∃ ran left, Protocol Stage.all (compile units options) ran left) ∧
    (∃ ran left, Protocol Stage.checking (check units options) ran left) ∧
    (∀ before middle stage behind, Stage.all = before ++ middle ++ stage :: behind →
      stage ∈ Stage.strict → (before.foldl Run.step (.ofUnits units options)).failed = true →
        (stage, .working) ∉ (compile units options).told) ∧
    ((compile units options).ending = none →
      ((compile units options).directives.isSome = true ↔
        (compile units options).told = Stage.all.flatMap fun s => [(s, .working), (s, .done)])) ∧
    ((compile units options).directives.isSome = true →
      (compile units options).bag.hasErrors = false) ∧
    (check units options).directives = none := by
  have hgoing : Going (.ofUnits units options) := ⟨called, watched⟩
  obtain ⟨ran, left, hall⟩ : ∃ ran left, Went Stage.all (.ofUnits units options) _ ran left :=
    went hgoing rfl (fun _ => rfl) (by decide)
  obtain ⟨ran', left', hchecking⟩ : ∃ ran left, Went Stage.checking (.ofUnits units options) _
    ran left := went hgoing rfl (fun _ => rfl) (by decide)
  refine ⟨⟨ran, left, hall.protocol⟩, ⟨ran', left', hchecking.protocol⟩,
    fun _ _ _ _ hsplit hstage => not_told_of_failed hgoing hstage hsplit, fun hending => ?_,
    fun hsome => ?_, ?_⟩
  · obtain ⟨hending', -, -, hfailed⟩ :=
      settle_same (Stage.all.foldl Run.step (.ofUnits units options))
    rw [directives_isSome_iff hending, compile, Run.through, told_settle, hfailed]
    exact hall.failed_iff (hending' ▸ hending)
  · obtain ⟨ds, hds⟩ := Option.isSome_iff_exists.1 hsome
    simp only [Run.directives, Option.ite_none_right_eq_some, Bool.and_eq_true,
      Bool.not_eq_true', Run.failed, Bool.or_eq_false_iff] at hds
    exact hds.1.2.2
  · have hnone : (check units options).output = none :=
      (settle_same _).2.2.1.trans (output_foldl (fun _ h => h) hgoing)
    rw [Run.directives, hnone, ite_self]

/-- A program without an entry point is checked and then refused. -/
theorem stages_told_unentered :
    (∃ ran left, Protocol Stage.all (compile [] {}) ran left) ∧
    (compile [] {}).told = Stage.checking.flatMap (fun s => [(s, .working), (s, .done)]) ++
      [(Stage.liveness, Status.working), (.liveness, .error), (.codegen, .skipped),
        (.link, .skipped)] ∧
    (compile [] {}).directives = none :=
  ⟨(stages_told [] {} rfl fun _ => rfl).1, by decide +kernel, by decide +kernel⟩

/-! ## A process that dies -/

/-- A unit with a struct that is followed without end. -/
def selfProjectionUnits : List Interchange.LoadedUnit :=
  [{ path := "types", decls := Program.selfProjection }]

/-- A stage is run as long as there are no errors and nobody calls the compilation off. -/
theorem step_eq_runStage (stage : Stage) (hending : r.ending = none) (hfailed : r.failed = false)
    (hcalled : r.options.cancelled = false) : r.step stage = r.runStage stage := by
  simp [Run.step, hending, hfailed, hcalled]

/-- The names of the struct are bound without an error, and checking it uses up the stack. -/
theorem selfProjection_steps (n : Nat) :
    ∃ r : Run, (Run.ofUnits selfProjectionUnits { limit := n + 4 }).step .bind = r ∧
      r.told = [(.bind, .working), (.bind, .done)] ∧
      (r.step .kindcheck).told = r.told ++ [(.kindcheck, .working)] ∧
      (r.step .kindcheck).ending = some (.overflow .kindcheck) := by
  let r₀ : Run := .ofUnits selfProjectionUnits { limit := n + 4 }
  obtain ⟨span, hfirst⟩ := runStage_eq (r := r₀) .bind rfl
  have hdecls : (r₀.opened .bind).units.flatMap (·.decls) = Program.selfProjection := rfl
  have hempty : (r₀.opened .bind).program = Program.emptyState.withLimit (n + 4) := rfl
  obtain ⟨text, trace, hbind⟩ := bindStage_runs (r := r₀.opened .bind) (Trace.Span.parentId span)
    (by rw [hdecls, hempty]; exact Program.selfProjection_declared (n + 4))
    (Program.selfProjection_bound n)
  have hbind : perform .bind (Trace.Span.parentId span) (r₀.opened .bind) = _ := hbind
  obtain ⟨r, hr⟩ : ∃ r, r₀.step .bind = r := ⟨_, rfl⟩
  have hstep := hr
  rw [step_eq_runStage .bind rfl rfl rfl, hfirst, hbind] at hr
  have hprogram : r.program = Program.selfProjectionBound.withLimit (n + 4) := by
    rw [← hr]
    rfl
  have hnone : r.ending = none := by
    rw [← hr]
    rfl
  have hfailed : r.failed = false := by
    rw [← hr]
    rfl
  have hoptions : r.options = { limit := n + 4 } := by
    rw [← hr]
    rfl
  obtain ⟨span', hsecond⟩ := runStage_eq (r := r) .kindcheck (by rw [hoptions])
  have hkind : perform .kindcheck (Trace.Span.parentId span') (r.opened .kindcheck) =
      .error .endless ((r.opened .kindcheck).adopt (Program.selfProjectionBound.withLimit (n + 4))) := by
    have hrun : onProgram Program.kindcheck (r.opened .kindcheck) = .error .endless
        ((r.opened .kindcheck).adopt (Program.selfProjectionBound.withLimit (n + 4))) := by
      rw [onProgram, Run.opened]
      simp only [hprogram, Program.selfProjection_kindStage]
    change EStateM.bind (onProgram Program.kindcheck) _ _ = _
    rw [EStateM.bind, hrun]
  rw [hkind] at hsecond
  have hstep' : r.step .kindcheck = r.runStage .kindcheck :=
    step_eq_runStage .kindcheck hnone hfailed (by rw [hoptions])
  refine ⟨r, hstep, ?_, ?_, ?_⟩
  · rw [← hr]
    rfl
  · rw [hstep', hsecond]
    exact told_push r _
  · rw [hstep', hsecond]
    rfl

/-- However much stack there is, the process dies while the struct is followed: it is told that this stage
began, and nothing more. -/
theorem selfProjection_told {n : Nat} (hn : 4 ≤ n) :
    (compile selfProjectionUnits { limit := n }).told =
        [(.bind, .working), (.bind, .done), (.kindcheck, .working)] ∧
      (compile selfProjectionUnits { limit := n }).ending = some (.overflow .kindcheck) := by
  obtain ⟨k, rfl⟩ := Nat.exists_eq_add_of_le' hn
  obtain ⟨r, hr, hbound, htold, hending⟩ := selfProjection_steps k
  have hcompile : compile selfProjectionUnits { limit := k + 4 } = (r.step .kindcheck).settle := by
    rw [compile, Run.through, Stage.all, List.foldl_cons, List.foldl_cons, hr,
      foldl_step_of_ending _ (by simp [hending])]
  refine ⟨?_, by rw [hcompile, (settle_same _).1, hending]⟩
  rw [hcompile, told_settle, htold, hbound]
  rfl

/-- A process can die: of this compilation it is told last that a stage began, however much stack there
is, and neither how that stage ended nor what becomes of the others. -/
theorem overflow_untold :
    (∀ n ≥ 4, (compile selfProjectionUnits { limit := n }).told =
          [(.bind, .working), (.bind, .done), (.kindcheck, .working)] ∧
        (compile selfProjectionUnits { limit := n }).ending = some (.overflow .kindcheck)) ∧
      ¬∃ ran left : List (Stage × Status), (∀ p ∈ ran, p.2 = .done ∨ p.2 = .error) ∧
        (∀ p ∈ left, p.2 = .skipped) ∧
          (compile selfProjectionUnits {}).told = ran.flatMap (fun p => [(p.1, .working), p]) ++ left := by
  refine ⟨fun n hn => selfProjection_told hn, ?_⟩
  rintro ⟨ran, left, hran, hleft, heq⟩
  -- What is told last is that a stage began, but here it would be how one ended, or that one is left out.
  have hlast : (ran.flatMap (fun p => [(p.1, Status.working), p]) ++ left).getLast? =
      some (.kindcheck, .working) := by
    rw [← heq, (selfProjection_told (n := 20000) (by omega)).1]
    rfl
  obtain ⟨last, hmem, hstatus⟩ : ∃ p ∈ ran ++ left, p = (Stage.kindcheck, Status.working) := by
    rcases left.eq_nil_or_concat with rfl | ⟨front, p, rfl⟩
    · rcases ran.eq_nil_or_concat with rfl | ⟨front, p, rfl⟩
      · cases hlast
      · exact ⟨p, by simp, by simpa using hlast⟩
    · exact ⟨p, by simp, by simpa using hlast⟩
  subst hstatus
  obtain hmem | hmem := List.mem_append.1 hmem
  · simpa using hran _ hmem
  · simpa using hleft _ hmem

end Qll.Compilation
