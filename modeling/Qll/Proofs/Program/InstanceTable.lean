import Qll.Proofs.Program.Instances
import Qll.Proofs.Program.Recursion

/-!
# The instance table of a program

Requests for instances are followed through the checking of a program. Whoever looks at all requests of a
run, and steps in only where one of them does not go as it should, never steps in.
-/

namespace Qll.Program

open Check (State CheckM Context Storage Instances FunctionItem TemplateItem GlobalItem Watch onTypes tables
  endState check_bind_ok bind_run)
open Check.State (Tabled Extends Progress)
open Check.Watch (Steady TracksFrom Tracks)
open Source (Location Decl Expr Stmt TypeExpr)
open Qll.Types (Ty Scope)

variable {base n : Nat} {final s s' : State} {x y : Instances}

/-! ## Watched requests -/

/-- The instances that can be requested where at most `n` more may be nested, where each request is in the
hands of a watcher. -/
def instancesWith (watch : Instances → Instances) : Nat → Instances
  | 0 => watch fun _ _ _ _ => throw .endless
  | n + 1 => watch fun c item arguments location =>
    requestInstance (instancesWith watch n) c item arguments location

/-- A watcher leaves those requests alone that go as they should. -/
def Harmless (final : State) (watch : Instances → Instances) : Prop :=
  ∀ (x : Instances) (c : Context) (item : Nat) (arguments : List Ty) (l : Option Location) (s : State),
    Fine final c item arguments s (x c item arguments l directory s) →
      watch x c item arguments l directory s = x c item arguments l directory s

/-- All requests go as they should, and the last level is never reached. -/
theorem alike_instancesWith {watch : Instances → Instances} (hwatch : Harmless final watch) (n : Nat) :
    Alike base final n (instancesWithin n) (instancesWith watch n) := by
  induction n with
  | zero =>
    intro c hc hdeep
    simp only [Deep] at hdeep
    omega
  | succ n ih =>
    intro c hc hdeep item arguments l s hs
    obtain ⟨⟨hafter, hsame⟩, hfine⟩ : Requested base final (instancesWithin n) (instancesWith watch n) c item
        arguments l s ∧ _ := requested_fine ih hs hc hdeep
    refine ⟨hafter, fun hfinal => ?_⟩
    have hrun := hsame hfinal
    have hwatched := hwatch (fun c item arguments l => requestInstance (instancesWith watch n) c item arguments l)
      c item arguments l s
    simp only [hrun] at hwatched
    exact hwatched (hfine hfinal)

/-! ## Initial values and bodies -/

/-- Whether a global has an initial value. -/
def opens (s : State) (index : Nat) : Bool := ((s.globals[index]?).bind (·.init)).isSome

/-- Initial values stay while bodies are checked. -/
theorem opens_eq {count : Nat} {own : Nat → Prop} (h : Progress count own s s') : opens s' = opens s := by
  funext index
  have hinit (s : State) : (s.globals.map (·.init))[index]?.join = (s.globals[index]?).bind (·.init) := by
    rw [Array.getElem?_map]
    cases s.globals[index]? <;> rfl
  rw [opens, ← hinit, h.inits, hinit, opens]

/-- What becomes of the items of globals while initial values are checked. -/
theorem leaves_globals {f : GlobalItem → GlobalItem} (hf : ∀ g, (f g).init = g.init) (index : Nat) :
    s.Leaves { s with globals := s.globals.modify index f } := by
  refine ⟨.of_eq rfl, rfl, rfl, rfl, Array.ext_getElem? fun i => ?_⟩
  simp only [Array.getElem?_map, Array.getElem?_modify]
  split
  · cases s.globals[i]? <;> simp [hf]
  · rfl

/-- The initial value of a global is checked. -/
theorem tracksFrom_checkGlobal (hxy : Alike base final (Types.maxExpansion + 2) x y) (hs : Tabled base s)
    (index : Nat) :
    (tables base final).TracksFrom directory s
      (fun _ s' => Progress (if opens s index then 1 else 0) (fun _ => False) s s')
      (checkGlobal x index) (checkGlobal y index) := by
  have hnone (hinit : (s.globals[index]?).bind (·.init) = none) :
      (tables base final).TracksFrom directory s
        (fun _ s' => Progress (if opens s index then 1 else 0) (fun _ => False) s s')
        (Pure.pure () : CheckM Unit) (Pure.pure ()) := by
    simp only [opens, hinit, Option.isSome_none, Bool.false_eq_true, if_false]
    exact Tracks.pure () s hs
  refine .get ?_
  cases hg : s.globals[index]? with
  | none => exact hnone (by rw [hg]; rfl)
  | some g =>
    cases hinit : g.init with
    | none =>
      simp only [hinit]
      exact hnone (by rw [hg, Option.bind_some, hinit])
    | some e =>
      have hopens : opens s index = true := by rw [opens, hg, Option.bind_some, hinit]; rfl
      simp only [hinit, hopens, if_true]
      have hkeep (references : List String) (checked : Checked.Expr) {W : Watch} : W.Steady directory
          (modify fun s : State => { s with globals := s.globals.modify index fun g =>
            { g with checked := some checked, references } }) :=
        .update fun s => leaves_globals (f := fun g => { g with checked := some checked, references })
          (fun _ => rfl) index
      refine tracksFrom_opened final (scopeOf g.space) none (x := fun c => Check.checkExpr x c e g.type)
        (y := fun c => Check.checkExpr y c e g.type) hs (fun c hc => Check.Watch.tracks_checkExpr
          (hxy c (by rw [hc]; exact Nat.zero_le _) (by simp [Deep])) e g.type)
        fun c r references s₁ hprogress hs₁ => ?_
      refine (TracksFrom.of_steady (fun W => ?_) hs₁).mono fun _ s₂ h => by
        simpa using hprogress.trans (Progress.of_leaves h)
      obtain ⟨checked, got⟩ := r
      refine .bind (hkeep references checked) fun _ => ?_
      split
      · refine .get fun s => .ite (.pure _) ?_
        exact .bind (Check.Watch.steady_checkValueType _ _) fun _ => .types _
      · exact .pure _
      · refine .bind (.types _) fun _ => .ite ?_ ?_
        · exact .bind (.types _) fun _ => hkeep _ _
        · exact .bind (Check.Watch.steady_textOf _) fun _ => Check.Watch.steady_telling (.pure _)

/-- Initial values are checked. -/
theorem tracksFrom_globals (hxy : Alike base final (Types.maxExpansion + 2) x y) (l : List Nat)
    (hs : Tabled base s) :
    (tables base final).TracksFrom directory s
      (fun _ s' => Progress (l.countP (opens s)) (fun _ => False) s s')
      (l.forM (checkGlobal x)) (l.forM (checkGlobal y)) := by
  induction l generalizing s with
  | nil => exact Tracks.pure _ s hs
  | cons index l ih =>
    refine (tracksFrom_checkGlobal hxy hs index).bind fun _ s₁ hfirst hs₁ => ?_
    refine (ih hs₁).mono fun _ s₂ hrest => ?_
    rw [opens_eq hfirst] at hrest
    simpa [List.countP_cons, Nat.add_comm] using hfirst.trans hrest

/-- The body of a function is checked, unless it was before. -/
theorem tracksFrom_function (hxy : Alike base final (Types.maxExpansion + 2) x y) (hs : Tabled base s) {index : Nat}
    (hindex : index < s.functions.size) :
    (tables base final).TracksFrom directory s
      (fun _ s' => Progress (if !s.done index then 1 else 0) (· = index) s s')
      (checkFunction x index) (checkFunction y index) := by
  have hf := Array.getElem?_eq_getElem hindex
  cases hdone : s.done index with
  | false =>
    refine tracksFrom_checkFunction hxy hs hf ?_ (by simp [Deep])
    simpa [State.done, hf] using hdone
  | true =>
    have hchecked : s.functions[index].checked.isSome = true := by simpa [State.done, hf] using hdone
    refine .get ?_
    simp only [hf, hchecked, if_true]
    refine (Tracks.pure _ s hs).mono fun _ s₁ h => ?_
    refine ⟨h.size, fun i hi _ => h.old i hi id, fun i hi hown => ?_, h.bodies, h.inits⟩
    obtain rfl | hnew := hown
    · rw [h.old i hindex id, hdone]
    · exact h.new i hi (.inr hnew)

/-- Bodies are checked. -/
theorem tracksFrom_functions (hxy : Alike base final (Types.maxExpansion + 2) x y) {l : List Nat} (hl : l.Nodup)
    (hs : Tabled base s) (hsize : ∀ i ∈ l, i < s.functions.size) :
    (tables base final).TracksFrom directory s
      (fun _ s' => Progress (l.countP (!s.done ·)) (· ∈ l) s s')
      (l.forM (checkFunction x)) (l.forM (checkFunction y)) := by
  induction l generalizing s with
  | nil =>
    exact (Tracks.pure _ s hs).mono fun _ s' (h : Progress 0 (fun _ => False) s s') => by simpa using h
  | cons index l ih =>
    obtain ⟨hnotin, hl⟩ := List.nodup_cons.1 hl
    have hindex := hsize index (by simp)
    have hrest : ∀ i ∈ l, i < s.functions.size := fun i hi => hsize i (by simp [hi])
    refine (tracksFrom_function hxy hs hindex).bind fun _ s₁ hfirst hs₁ => ?_
    refine (ih hl hs₁ fun i hi => (hrest i hi).trans_le hfirst.size).mono fun _ s₂ hlast => ?_
    have hcount : l.countP (!s₁.done ·) = l.countP (!s.done ·) :=
      List.countP_congr fun i hi => by
        rw [hfirst.old i (hrest i hi) fun h => hnotin (h ▸ hi)]
    rw [hcount] at hlast
    simpa [List.countP_cons, Nat.add_comm] using hfirst.trans hlast

/-! ## A program before bodies are checked -/

/-- No body was checked, and there are no instances. -/
structure Untouched (s : State) : Prop where
  functions : ∀ f ∈ s.functions, f.checked = none ∧ f.scope.chain = []
  templates : ∀ t ∈ s.templates, t.instances = []
  bodies : s.bodies.size = 0

/-- Entering declarations checks no bodies and makes no instances. -/
theorem untouched_enters : Enters Untouched where
  aside _ hfunctions htemplates hbodies _ hs :=
    ⟨hfunctions ▸ hs.functions, htemplates ▸ hs.templates, hbodies ▸ hs.bodies⟩
  typeItem _ hs := ⟨hs.functions, hs.templates, hs.bodies⟩
  function hchecked hchain hs :=
    ⟨Check.forall_push hs.functions ⟨hchecked, hchain⟩, hs.templates, hs.bodies⟩
  template hinstances hs := ⟨hs.functions, Check.forall_push hs.templates hinstances, hs.bodies⟩

/-- A state in which the functions and templates are left alone stays untouched. -/
theorem Untouched.leaves (hs : Untouched s) (h : s.Leaves s') : Untouched s' :=
  ⟨h.functions ▸ hs.functions, h.templates ▸ hs.templates, h.bodies.trans hs.bodies⟩

/-- The tables of an untouched program are in order. -/
theorem Untouched.tabled (hs : Untouched s) : Tabled s.functions.size s := by
  have hlisted : s.listed = [] := by
    rw [State.listed, List.flatMap_eq_nil_iff]
    intro t ht
    simp [hs.templates t (by simpa using ht)]
  refine ⟨Nat.le_refl _, fun t ht => ?_, fun t ht => ?_, ?_, fun i => ?_, fun f hf => ?_⟩
  · simp [hs.templates t ht]
  · simp [hs.templates t ht]
  · simp [hlisted]
  · simp only [hlisted, List.not_mem_nil, false_iff]
    omega
  · simp [(hs.functions f hf).2]

/-- In an untouched program no body was checked. -/
theorem Untouched.done (hs : Untouched s) (i : Nat) : s.done i = false := by
  rw [State.done]
  cases hf : s.functions[i]? with
  | none => rfl
  | some f => simp [(hs.functions f (Array.mem_of_getElem? hf)).1]

/-- Resolving an import touches nothing that is watched. -/
theorem steady_resolveImport {W : Watch} (index : Nat) : W.Steady directory (resolveImport index) := by
  refine fun s hs => .get ?_
  split
  · exact Tracks.pure _ s hs
  · split
    · exact .of_eq rfl rfl (.same hs ⟨.of_eq rfl, rfl, rfl, rfl, rfl⟩)
    · exact Check.Watch.steady_error s hs

/-- Resolving names touches nothing that is watched. -/
theorem steady_bind {W : Watch} : W.Steady directory bind :=
  .get fun _ => .bind (.forM fun index _ => steady_resolveImport index) fun _ =>
    .get fun _ => .forM fun _ _ => Check.Watch.steady_bindNames _

/-- The kind of a global is checked without touching what is watched. -/
theorem steady_kindcheckGlobal {W : Watch} (g : GlobalItem) : W.Steady directory (kindcheckGlobal g) := by
  unfold kindcheckGlobal
  split
  · exact .bind (Check.Watch.steady_checkType _) fun _ => .discard (Check.Watch.steady_checkValueType _ _)
  · exact .pure _
  · exact .bind Check.Watch.steady_error fun _ => .types _

/-- The kind of a function is checked without touching what is watched. -/
theorem steady_kindcheckFunction {W : Watch} (f : FunctionItem) :
    W.Steady directory (kindcheckFunction f) := by
  refine .bind (Check.Watch.steady_checkType _) fun _ => .ite ?_ (.pure _)
  split
  · exact .bind (.types _) fun _ => .ite Check.Watch.steady_error (.pure _)
  · exact .bind (.pure _) fun _ => .ite Check.Watch.steady_error (.pure _)

/-- The kind stage touches nothing that is watched. -/
theorem steady_kindcheck {W : Watch} : W.Steady directory kindcheck :=
  .get fun _ => .bind (.forM fun _ _ => .bind (.types _) fun n => Check.Watch.steady_kindcheckWithin n _ _ _) fun _ =>
    .get fun _ => .bind (.forM fun g _ => steady_kindcheckGlobal g) fun _ =>
      .get fun _ => .bind (.forM fun f _ => steady_kindcheckFunction f) fun _ =>
        .get fun _ => .forM fun _ _ => Check.Watch.steady_checkType _

/-- The stages up to the kind stage check no body. -/
theorem untouched_kinds {decls : List Decl} (hrun : kinds decls directory (emptyState.withLimit n) = .ok () s) :
    Untouched s := by
  obtain ⟨_, s₁, hdeclare, h₁⟩ := check_bind_ok.1 hrun
  obtain ⟨_, s₂, hbind, hkind⟩ := check_bind_ok.1 h₁
  have hempty : Untouched (emptyState.withLimit n) := by
    constructor <;> simp [emptyState, State.withLimit]
  have hdeclared := untouched_enters.declareAll root decls _ _ _ hdeclare hempty
  have hbound := Check.Watch.leaves_of_steady (fun W => steady_bind (W := W)) s₁
  have hkinds := Check.Watch.leaves_of_steady (fun W => steady_kindcheck (W := W)) s₂
  rw [hbind] at hbound
  rw [hkind] at hkinds
  exact (hdeclared.leaves hbound).leaves hkinds

/-! ## All requests of a program -/

/-- Functions that are not declared have been checked when the declared ones have their turn. -/
theorem countP_not_done (hs : Untouched s) {count : Nat} (h : Progress count (fun _ => False) s s') :
    (List.range s'.functions.size).countP (!s'.done ·) = s.functions.size := by
  obtain ⟨k, hk⟩ := Nat.exists_eq_add_of_le h.size
  have hdeclared : (List.range s.functions.size).countP (!s'.done ·) = s.functions.size := by
    rw [List.countP_eq_length.2, List.length_range]
    intro i hi
    simp [h.old i (List.mem_range.1 hi) id, hs.done]
  have hnew : ((List.range k).map (s.functions.size + ·)).countP (!s'.done ·) = 0 := by
    rw [List.countP_eq_zero]
    intro i hi
    obtain ⟨j, hj, rfl⟩ := List.mem_map.1 hi
    have := List.mem_range.1 hj
    simp [h.new (s.functions.size + j) (by omega) (.inr (by omega))]
  rw [hk, List.range_add, List.countP_append, hdeclared, hnew]
  rfl

/-- The globals with an initial value are counted by their numbers. -/
theorem countP_opens (s : State) :
    (List.range s.globals.size).countP (opens s) = s.globals.toList.countP (·.init.isSome) := by
  have hall : (List.range s.globals.size).map (s.globals[·]?) = s.globals.toList.map some := by
    refine List.ext_getElem (by simp) fun i hi _ => ?_
    have hlt : i < s.globals.size := by simpa using hi
    simp [Array.getElem?_eq_getElem hlt]
  have hcount := congrArg (List.countP fun g : Option GlobalItem => (g.bind (·.init)).isSome) hall
  rw [List.countP_map, List.countP_map] at hcount
  exact hcount

/-- Initial values and bodies are checked. -/
theorem tracksFrom_typecheck (hxy : Alike s.functions.size final (Types.maxExpansion + 2) x y) (hs : Untouched s) :
    (tables s.functions.size final).TracksFrom directory s
      (fun _ s' => Progress (s.globals.toList.countP (·.init.isSome) + s.functions.size)
        (· < s.functions.size) s s')
      (typecheckWith x) (typecheckWith y) := by
  refine .get ((tracksFrom_globals hxy _ hs.tabled).bind fun _ s₁ hglobals hs₁ => .get ?_)
  have hnodup : (List.range s₁.functions.size).Nodup := List.nodup_range
  refine (tracksFrom_functions hxy hnodup hs₁ fun i => List.mem_range.1).bind fun _ s₂ hfunctions hs₂ => .get ?_
  have hpostpone (W : Watch) : W.Steady directory
      ((List.range s₂.templates.size).forM fun i => Check.postpone (.unusedTemplate i)) :=
    .forM fun _ _ => Check.Watch.steady_postpone _
  refine (TracksFrom.of_steady hpostpone hs₂).mono fun _ s₃ hlast => ?_
  rw [countP_opens] at hglobals
  rw [countP_not_done hs hglobals] at hfunctions
  have hall := (hglobals.trans hfunctions).trans (Progress.of_leaves hlast)
  refine ⟨hall.size, fun i hi hown => absurd hi hown, fun i hi _ => hall.new i hi ?_, by simpa using hall.bodies,
    hall.inits⟩
  by_cases hdeclared : i < s₁.functions.size
  · exact .inl (.inl (.inr (List.mem_range.2 hdeclared)))
  · exact .inr (hglobals.size.trans (Nat.not_lt.1 hdeclared))

/-- In the end the functions beyond the declared ones are the instances. -/
theorem tabled_typecheck (hs : Untouched s) : Tabled s.functions.size (endState (typecheck directory s)) :=
  have hnone : Harmless (endState (typecheck directory s)) id := fun _ _ _ _ _ _ _ => rfl
  (tracksFrom_typecheck (alike_instancesWith hnone (Types.maxExpansion + 2)) hs).1.1

/-- Under two keys a template lists two functions, and their names differ. -/
theorem instances_distinct (hs : Tabled base s) {item : Nat} {key key' : String} (hne : key ≠ key')
    {i i' : Nat} (hi : s.instanceIndex? item key = some i) (hi' : s.instanceIndex? item key' = some i')
    {f f' : FunctionItem} (hf : s.functions[i]? = some f) (hf' : s.functions[i']? = some f') :
    i ≠ i' ∧ f.qualified ≠ f'.qualified := by
  obtain ⟨t, ht, -⟩ := Option.bind_eq_some_iff.1 hi
  have hname := qualified_of_instance? hs ht (Option.bind_eq_some_iff.2 ⟨i, hi, hf⟩)
  have hname' := qualified_of_instance? hs ht (Option.bind_eq_some_iff.2 ⟨i', hi', hf'⟩)
  have hqualified : f.qualified ≠ f'.qualified := by
    rw [hname, hname']
    exact fun h => hne (String.append_right_inj _ |>.1 h)
  refine ⟨?_, hqualified⟩
  rintro rfl
  rw [hf, Option.some.injEq] at hf'
  exact hqualified (by rw [hf'])

/-- Instances are made once for each key, and checked once. Each request of a run goes as it should: a
watcher that steps in only where one does not makes no difference. In the end the functions beyond the
declared ones are the instances, and if the run ends well each body was opened once and checked. -/
theorem instances_tabled {decls : List Decl} {n : Nat} {s : State}
    (hrun : kinds decls directory (emptyState.withLimit n) = .ok () s) :
    Tabled s.functions.size (endState (typecheck directory s)) ∧
    (∀ (item : Nat) (key key' : String) (i i' : Nat) (f f' : FunctionItem), key ≠ key' →
      (endState (typecheck directory s)).instanceIndex? item key = some i →
      (endState (typecheck directory s)).instanceIndex? item key' = some i' →
      (endState (typecheck directory s)).functions[i]? = some f →
      (endState (typecheck directory s)).functions[i']? = some f' →
      i ≠ i' ∧ f.qualified ≠ f'.qualified) ∧
    (∀ watch : Instances → Instances, Harmless (endState (typecheck directory s)) watch →
      typecheckWith (instancesWith watch (Types.maxExpansion + 2)) directory s = typecheck directory s) ∧
    ∀ s', typecheck directory s = .ok () s' →
      (∀ f ∈ s'.functions, f.checked.isSome) ∧
      s'.bodies.size = s.globals.toList.countP (·.init.isSome) + s'.functions.size := by
  have hs := untouched_kinds hrun
  have hall {watch : Instances → Instances} (hwatch : Harmless (endState (typecheck directory s)) watch) :=
    tracksFrom_typecheck (alike_instancesWith hwatch (Types.maxExpansion + 2)) hs
  have hnone : Harmless (endState (typecheck directory s)) id := fun _ _ _ _ _ _ _ => rfl
  obtain ⟨htabled, -, hprogress⟩ := (hall hnone).1
  refine ⟨htabled, fun item key key' i i' f f' hne hi hi' hf hf' => instances_distinct htabled hne hi hi' hf hf',
    fun watch hwatch => (hall hwatch).2 (.refl _), fun s' hs' => ?_⟩
  have hend := hprogress () s' hs'
  refine ⟨fun f hf => ?_, ?_⟩
  · obtain ⟨i, hi, rfl⟩ := Array.mem_iff_getElem.1 hf
    have hdone := hend.new i hi (Nat.lt_or_ge i s.functions.size)
    simpa [State.done, Array.getElem?_eq_getElem hi] using hdone
  · have := hend.bodies
    have := hs.bodies
    omega

/-- A template that requests an instance for a pointer to its argument, and a function that starts it. -/
def growing : List Decl :=
  let name (text : String) : TypeExpr := .name text somewhere
  let grow (t : TypeExpr) (e : Expr) : Stmt :=
    .giveBack (some (.call (.name "grow" [t] somewhere) [e] somewhere)) somewhere
  [.function "grow" ["T"] [{ name := "x", type := name "T", location := somewhere }] (some (name "byte"))
      [grow (.pointer (name "T") somewhere) (.null somewhere)] false false somewhere,
    .function "main" [] [] (some (name "byte")) [grow (name "byte") (.integer 0 somewhere)] false false
      somewhere]

/-- Whether a run ends well, in a state of some kind. -/
def endsIn (p : State → Bool) : EStateM.Result Fault State Unit → Bool
  | .ok _ s => p s
  | .error _ _ => false

/-- A run ends in a state of some kind if there is such a state. -/
theorem endsIn_iff {p : State → Bool} {r : EStateM.Result Fault State Unit} :
    endsIn p r = true ↔ ∃ s, r = .ok () s ∧ p s = true := by
  cases r with
  | ok u s => simp [endsIn]
  | error e s => simp [endsIn]

/-- In the program that grows each instance is made once, up to the one that is cut off. -/
theorem instances_tabled_growing :
    ∃ s s', kinds growing directory (emptyState.withLimit 40) = .ok () s ∧
      typecheck directory s = .ok () s' ∧ s.functions.size = 1 ∧ s'.functions.size = 11 ∧ Tabled 1 s' ∧
      (∀ watch : Instances → Instances, Harmless s' watch →
        typecheckWith (instancesWith watch (Types.maxExpansion + 2)) directory s = .ok () s') ∧
      (∀ f ∈ s'.functions, f.checked.isSome) ∧ s'.bodies.size = 11 := by
  have hgrowing : endsIn (fun s => s.functions.size == 1 && s.globals.isEmpty &&
      endsIn (fun s' => s'.functions.size == 11) (typecheck directory s))
        (kinds growing directory (emptyState.withLimit 40)) = true := by decide +kernel
  obtain ⟨s, hrun, hs⟩ := endsIn_iff.1 hgrowing
  simp only [Bool.and_eq_true, beq_iff_eq, Array.isEmpty_iff, endsIn_iff] at hs
  obtain ⟨⟨hone, hglobals⟩, s', hs', helevens⟩ := hs
  obtain ⟨htabled, -, hwatched, hchecked⟩ := instances_tabled hrun
  obtain ⟨hall, hbodies⟩ := hchecked s' hs'
  rw [hs', endState, hone] at htabled
  simp only [hs', endState] at hwatched
  refine ⟨s, s', hrun, hs', hone, helevens, htabled, hwatched, hall, ?_⟩
  simpa [hglobals, helevens] using hbodies

/-! ## Namespaces while a program is checked

No stage after the declarations makes a namespace or takes an entry out of a table. The instances of
template functions are the only entries that are added, under names that are free. So what a name stands
for in a namespace stays the same through all the stages, also where one of them ends with a fault. The
templates are the declared ones, with more instances. -/

section Standing

open Check (SpacesStay)

variable {s₀ : State} {x : Instances}

/-- The namespaces stay, and so do the templates, which may get instances. -/
structure Remains (s s' : State) : Prop where
  spaces : SpacesStay s s'
  templates : ∀ t' ∈ s'.templates, ∃ t ∈ s.templates, t.Same t'

/-- A state with the same namespaces and templates remains. -/
theorem Remains.of_eq (hspaces : s'.spaces = s.spaces) (htemplates : s'.templates = s.templates) :
    Remains s s' :=
  ⟨.of_eq hspaces, fun t ht => ⟨t, htemplates ▸ ht, rfl⟩⟩

/-- What leaves functions and templates alone leaves the templates. -/
theorem Remains.of_leaves (h : s.Leaves s') : Remains s s' :=
  ⟨h.spaces, fun t ht => ⟨t, h.templates ▸ ht, rfl⟩⟩

/-- What remains over two stretches remains over both. -/
theorem Remains.trans {s₁ : State} (h : Remains s s₁) (h' : Remains s₁ s') : Remains s s' := by
  refine ⟨h.spaces.trans h'.spaces, fun t' ht' => ?_⟩
  obtain ⟨t₁, ht₁, hsame'⟩ := h'.templates t' ht'
  obtain ⟨t, ht, hsame⟩ := h.templates t₁ ht₁
  exact ⟨t, ht, hsame.trans hsame'⟩

/-- The namespaces and the templates of a state are watched. -/
def standing (s₀ : State) : Watch where
  Inv s := Remains s₀ s
  Grows _ _ := True
  Even _ _ := True
  final := s₀
  grows_trans _ _ := trivial
  even_trans _ _ := trivial
  same h hs := ⟨hs.trans (.of_leaves h), trivial, trivial⟩

/-- A step that leaves namespaces and templates, whatever else it does. -/
theorem standing_step {α : Type} {y : CheckM α} (h : ∀ s, Remains s (endState (y directory s))) :
    (standing s₀).Steady directory y :=
  fun s hs => ⟨⟨hs.trans (h s), trivial, fun _ _ _ => trivial⟩, fun _ => rfl⟩

/-- Opening a body leaves namespaces and templates. -/
theorem standing_openBody (c : Context) (result : Option Ty) :
    (standing s₀).Steady directory (c.openBody result) := standing_step fun _ => .of_eq rfl rfl

/-- A body is checked. -/
theorem standing_checkFunction
    (hx : ∀ c item arguments l, (standing s₀).Steady directory (x c item arguments l)) (index : Nat) :
    (standing s₀).Steady directory (checkFunction x index) := by
  refine .get fun s => ?_
  split
  · exact .pure _
  · refine .ite (.pure _) (.bind (standing_openBody _ _) fun c => .bind (steady_declareParams _) fun _ => ?_)
    refine .bind (Check.Watch.tracks_checkStmts (hx c) _) fun _ => .bind Check.Watch.steady_references fun _ => ?_
    exact standing_step fun _ => .of_eq rfl rfl

/-- The function of an instance is made. -/
theorem standing_addInstance (item : Nat) (t : Check.TemplateItem) (key : String) (params : List Ty)
    (result : Ty) (arguments : List Ty) (scope : Scope) :
    (standing s₀).Steady directory (addInstance item t key params result arguments scope) := by
  refine .bind (steady_bindTypeParams _ _) fun _ => .bind (Check.Watch.steady_newStorage _ _ _ _) fun _ => ?_
  refine .bind (.discard (steady_addValue _ _ _)) fun _ => standing_step fun s => ⟨.of_eq rfl, fun t ht => ?_⟩
  have ht : t ∈ s.templates.modify item fun t =>
    { t with instances := (key, s.functions.size) :: t.instances } := ht
  obtain ht | ⟨old, hold, rfl⟩ := Check.mem_modify ht
  · exact ⟨t, ht, rfl⟩
  · exact ⟨old, hold, rfl⟩

/-- An instance is requested. -/
theorem standing_requestInstance
    (hx : ∀ c item arguments l, (standing s₀).Steady directory (x c item arguments l)) (c : Context)
    (item : Nat) (arguments : List Ty) (l : Option Source.Location) :
    (standing s₀).Steady directory (requestInstance x c item arguments l) := by
  refine .get fun s => ?_
  split
  · exact .pure _
  · refine .bind (.types _) fun key => ?_
    split
    · exact .pure _
    · refine .bind (Check.Watch.steady_instantiate _) fun inner => ?_
      split
      · exact .pure _
      · refine .bind (.types _) fun made => ?_
        split
        · exact .bind (standing_addInstance _ _ _ _ _ _ _) fun index =>
            .bind (standing_checkFunction hx index) fun _ => .get fun _ => .pure _
        · exact .pure _

/-- Instances may request further ones. -/
theorem standing_instancesWithin (n : Nat) (c : Context) (item : Nat) (arguments : List Ty)
    (l : Option Source.Location) : (standing s₀).Steady directory (instancesWithin n c item arguments l) := by
  induction n generalizing c item arguments l with
  | zero => exact .throw _
  | succ n ih => exact standing_requestInstance ih c item arguments l

/-- An initial value is checked. -/
theorem standing_checkGlobal
    (hx : ∀ c item arguments l, (standing s₀).Steady directory (x c item arguments l)) (index : Nat) :
    (standing s₀).Steady directory (checkGlobal x index) := by
  refine .get fun s => ?_
  split
  · exact .pure _
  · split
    · exact .pure _
    · refine .bind (standing_openBody _ _) fun c => .bind (Check.Watch.tracks_checkExpr (hx c) _ _) fun r => ?_
      obtain ⟨checked, got⟩ := r
      have hkeep (references : List String) (checked : Checked.Expr) : (standing s₀).Steady directory
          (modify fun s : State => { s with globals := s.globals.modify index fun g =>
            { g with checked := some checked, references } }) := standing_step fun _ => .of_eq rfl rfl
      refine .bind Check.Watch.steady_references fun references => .bind (hkeep references checked) fun _ => ?_
      split
      · refine .get fun s => .ite (.pure _) ?_
        exact .bind (Check.Watch.steady_checkValueType _ _) fun _ => .types _
      · exact .pure _
      · refine .bind (.types _) fun _ => .ite ?_ ?_
        · exact .bind (.types _) fun _ => hkeep _ _
        · exact .bind (Check.Watch.steady_textOf _) fun _ => Check.Watch.steady_telling (.pure _)

/-- Initial values and bodies are checked. -/
theorem standing_typecheck : (standing s₀).Steady directory typecheck := by
  have hx := @standing_instancesWithin s₀ (Types.maxExpansion + 2)
  exact .get fun _ => .bind (.forM fun _ _ => standing_checkGlobal hx _) fun _ =>
    .get fun _ => .bind (.forM fun _ _ => standing_checkFunction hx _) fun _ =>
      .get fun _ => .forM fun _ _ => Check.Watch.steady_postpone _

/-- Whatever is watched so leaves the namespaces in place, and all that is in them, and the templates. -/
theorem remains_of_standing {α : Type} {y : CheckM α}
    (h : ∀ s₀, (standing s₀).Steady directory y) (s : State) : Remains s (endState (y directory s)) :=
  (h s s (.of_eq rfl rfl)).1.1

/-- Resolving names leaves namespaces and templates, however it ends. -/
theorem remains_bind (s : State) : Remains s (endState (bind directory s)) :=
  remains_of_standing (fun _ => steady_bind) s

/-- The kind stage leaves namespaces and templates, however it ends. -/
theorem remains_kindcheck (s : State) : Remains s (endState (kindcheck directory s)) :=
  remains_of_standing (fun _ => steady_kindcheck) s

/-- Checking bodies leaves namespaces and templates, however it ends. -/
theorem remains_typecheck (s : State) : Remains s (endState (typecheck directory s)) :=
  remains_of_standing (fun _ => standing_typecheck) s

end Standing

end Qll.Program
