import Qll.Check.Stmt
import Qll.Proofs.Computation

/-!
# Watched computations

Checking changes the tables of functions and templates only where an instance of a template is
requested. So whatever is kept by all requests, and whatever orders the states before and after a
request, holds for everything that is checked. Computations are compared in pairs: the second one
may request its instances in another way, as long as it comes to the same.
-/

namespace Qll.Check

open Source (Location TypeExpr)
open Diagnostic (Severity Code)
open Qll.Types (Ty TypeM Scope)

/-! ## Namespaces go on

Once the declarations of a program are entered, no namespace is made any more, and what a namespace has
it keeps. Instances of template functions are entered under names that are free. -/

section Spaces

/-- A namespace later on: what was found in it is found again. -/
structure SpaceGrows (n n' : Space) : Prop where
  name : n'.name = n.name
  qualified : n'.qualified = n.qualified
  parent : n'.parent = n.parent
  children : ∀ {name c}, n.children.lookup name = some c → n'.children.lookup name = some c
  types : ∀ {name b}, n.types.lookup name = some b → n'.types.lookup name = some b
  values : ∀ {name st}, n.values.lookup name = some st → n'.values.lookup name = some st

/-- All namespaces go on. -/
def SpacesGrow (s s' : State) : Prop :=
  ∀ ⦃i : Nat⦄ ⦃n : Space⦄, s.spaces[i]? = some n → ∃ n', s'.spaces[i]? = some n' ∧ SpaceGrows n n'

/-- The namespaces stay, with the same ones nested in them; entries may be added. -/
structure SpacesStay (s s' : State) : Prop where
  grows : SpacesGrow s s'
  back : ∀ {i : Nat} {n' : Space}, s'.spaces[i]? = some n' →
    ∃ n, s.spaces[i]? = some n ∧ n'.children = n.children

variable {s s' s'' : State} {n n' n'' : Space}

/-- A namespace goes on from itself. -/
theorem SpaceGrows.refl (n : Space) : SpaceGrows n n :=
  ⟨rfl, rfl, rfl, fun h => h, fun h => h, fun h => h⟩

/-- A namespace goes on in two steps. -/
theorem SpaceGrows.trans (h : SpaceGrows n n') (h' : SpaceGrows n' n'') : SpaceGrows n n'' :=
  ⟨h'.name.trans h.name, h'.qualified.trans h.qualified, h'.parent.trans h.parent,
    fun hc => h'.children (h.children hc), fun hb => h'.types (h.types hb),
    fun hst => h'.values (h.values hst)⟩

/-- Where the namespaces are equal, they go on. -/
theorem SpacesGrow.of_eq (h : s'.spaces = s.spaces) : SpacesGrow s s' :=
  fun _ n hn => ⟨n, by rw [h, hn], .refl n⟩

/-- Namespaces go on from themselves. -/
theorem SpacesGrow.refl (s : State) : SpacesGrow s s := .of_eq rfl

/-- Namespaces go on in two steps. -/
theorem SpacesGrow.trans (h : SpacesGrow s s') (h' : SpacesGrow s' s'') : SpacesGrow s s'' := by
  intro i n hn
  obtain ⟨n', hn', hgrows⟩ := h hn
  obtain ⟨n'', hn'', hgrows'⟩ := h' hn'
  exact ⟨n'', hn'', hgrows.trans hgrows'⟩

/-- Where the namespaces are equal, they stay. -/
theorem SpacesStay.of_eq (h : s'.spaces = s.spaces) : SpacesStay s s' :=
  ⟨.of_eq h, fun hn => ⟨_, h ▸ hn, rfl⟩⟩

/-- Namespaces stay in two steps. -/
theorem SpacesStay.trans (h : SpacesStay s s') (h' : SpacesStay s' s'') : SpacesStay s s'' := by
  refine ⟨h.grows.trans h'.grows, fun hn => ?_⟩
  obtain ⟨n', hn', hsame'⟩ := h'.back hn
  obtain ⟨n, hn, hsame⟩ := h.back hn'
  exact ⟨n, hn, hsame'.trans hsame⟩

/-- What is known of a namespace later on was known before. -/
theorem SpacesStay.was (h : SpacesStay s s') {i : Nat} (hn' : s'.spaces[i]? = some n') :
    ∃ n, s.spaces[i]? = some n ∧ SpaceGrows n n' ∧ n'.children = n.children := by
  obtain ⟨n, hn, hchildren⟩ := h.back hn'
  obtain ⟨n'', hn'', hgrows⟩ := h.grows hn
  obtain rfl : n'' = n' := Option.some.inj (hn''.symm.trans hn')
  exact ⟨n, hn, hgrows, hchildren⟩

/-- A change of one namespace that leaves what is nested in it. -/
theorem SpacesStay.of_modify {space : Nat} {f : Space → Space} (hn : s.spaces[space]? = some n)
    (hgrows : SpaceGrows n (f n)) (hchildren : ∀ m, (f m).children = m.children)
    (h : s'.spaces = s.spaces.modify space f) : SpacesStay s s' := by
  constructor
  · intro i m hm
    by_cases hi : space = i
    · subst hi
      obtain rfl : n = m := Option.some.inj (hn.symm.trans hm)
      exact ⟨f n, by rw [h, Array.getElem?_modify, if_pos rfl, hn]; rfl, hgrows⟩
    · exact ⟨m, by rw [h, Array.getElem?_modify, if_neg hi, hm], .refl m⟩
  · intro i m hm
    rw [h, Array.getElem?_modify] at hm
    split at hm
    · obtain ⟨m', hm', rfl⟩ := Option.map_eq_some_iff.1 hm
      exact ⟨m', hm', hchildren m'⟩
    · exact ⟨m, hm, rfl⟩

/-- An entry is found behind a new one of another name. -/
theorem lookup_cons_of_some {α : Type} {table : List (String × α)} {name name' : String} {a b : α}
    (hfree : table.lookup name = none) (h : table.lookup name' = some a) :
    ((name, b) :: table).lookup name' = some a := by
  have hne : name' ≠ name := by
    rintro rfl
    simp [hfree] at h
  rw [List.lookup_cons, beq_eq_false_iff_ne.2 hne, h]

end Spaces

/-! ## Watches -/

/-- The state in which a run ends, well or with a fault. -/
def endState {ε σ α : Type} : EStateM.Result ε σ α → σ
  | .ok _ s => s
  | .error _ s => s

/-- How a sequence of steps runs. -/
theorem bind_run {α β : Type} {x : CheckM α} {f : α → CheckM β} {d : Directory} {s : State} :
    (x >>= f) d s = match x d s with
      | .ok a s₁ => f a d s₁
      | .error e s₁ => .error e s₁ := by
  change EStateM.bind (x d) (fun a => f a d) s = _
  rw [EStateM.bind]
  cases x d s <;> rfl

/-- Nothing is changed of functions, templates, written initial values and the number of declarations
under check, and the namespaces stay. -/
structure State.Leaves (s s' : State) : Prop where
  spaces : SpacesStay s s'
  functions : s'.functions = s.functions
  templates : s'.templates = s.templates
  bodies : s'.bodies.size = s.bodies.size
  inits : s'.globals.map (·.init) = s.globals.map (·.init)

/-- Nothing is changed where nothing happens. -/
theorem State.Leaves.refl (s : State) : s.Leaves s := ⟨.of_eq rfl, rfl, rfl, rfl, rfl⟩

/-- What neither of two steps changes is not changed by both. -/
theorem State.Leaves.trans {s s₁ s' : State} (h : s.Leaves s₁) (h' : s₁.Leaves s') : s.Leaves s' :=
  ⟨h.spaces.trans h'.spaces, h'.functions.trans h.functions, h'.templates.trans h.templates,
    h'.bodies.trans h.bodies, h'.inits.trans h.inits⟩

/-- What is watched: an invariant of the states, how a state may change on the way to another one, how
it does where a step ends well, and the state that is there in the end. Only namespaces, functions,
templates, written initial values and the number of declarations under check matter. -/
structure Watch where
  Inv : State → Prop
  Grows : State → State → Prop
  Even : State → State → Prop
  final : State
  grows_trans : ∀ {s s₁ s₂}, Grows s s₁ → Grows s₁ s₂ → Grows s s₂
  even_trans : ∀ {s s₁ s₂}, Even s s₁ → Even s₁ s₂ → Even s s₂
  same : ∀ {s s'}, s.Leaves s' → Inv s → Inv s' ∧ Grows s s' ∧ Even s s'

namespace Watch

variable (W : Watch) (d : Directory)

/-- What is there after a step: the state in the end is watched, and of a step that ends well something
more is said. -/
def After {α : Type} (s : State) (E : α → State → Prop) (r : EStateM.Result Fault State α) : Prop :=
  W.Inv (endState r) ∧ W.Grows s (endState r) ∧ ∀ a s', r = .ok a s' → E a s'

/-- A computation keeps what is watched from a state on, and another one does the same unless what comes
later does not lead to the final state. -/
def TracksFrom {α : Type} (s : State) (E : α → State → Prop) (x y : CheckM α) : Prop :=
  W.After s E (x d s) ∧ (W.Grows (endState (x d s)) W.final → y d s = x d s)

/-- A computation keeps what is watched, and another one comes to the same. -/
def Tracks {α : Type} (x y : CheckM α) : Prop :=
  ∀ s, W.Inv s → W.TracksFrom d s (fun _ s' => W.Even s s') x y

/-- A computation without requests. -/
abbrev Steady {α : Type} (x : CheckM α) : Prop := W.Tracks d x x

variable {W d} {α β : Type}

/-- A step that leaves the tables. -/
theorem After.same {s : State} (hs : W.Inv s) {r : EStateM.Result Fault State α}
    (h : s.Leaves (endState r)) : W.After s (fun _ s' => W.Even s s') r := by
  obtain ⟨hinv, hgrows, heven⟩ := W.same h hs
  refine ⟨hinv, hgrows, fun a s' hr => ?_⟩
  subst hr
  exact heven

namespace TracksFrom

variable {s : State} {E E₁ : α → State → Prop} {E' : β → State → Prop} {x y : CheckM α} {f g : α → CheckM β}

/-- What is said of the end may be weakened. -/
theorem mono (h : W.TracksFrom d s E₁ x y) (hE : ∀ a s', E₁ a s' → E a s') : W.TracksFrom d s E x y :=
  ⟨⟨h.1.1, h.1.2.1, fun a s' hr => hE a s' (h.1.2.2 a s' hr)⟩, h.2⟩

/-- Both computations give a result that is known. -/
theorem of_eq {r : EStateM.Result Fault State α} (hx : x d s = r) (hy : y d s = r) (h : W.After s E r) :
    W.TracksFrom d s E x y := ⟨hx ▸ h, fun _ => hy.trans hx.symm⟩

/-- The state in the end comes later. -/
theorem grows (h : W.TracksFrom d s E x y) : W.TracksFrom d s (fun a s' => E a s' ∧ W.Grows s s') x y := by
  refine ⟨⟨h.1.1, h.1.2.1, fun a s' hr => ⟨h.1.2.2 a s' hr, ?_⟩⟩, h.2⟩
  have hgrows := h.1.2.1
  rwa [hr] at hgrows

/-- What follows a reading of the state is given the state. -/
theorem get {f g : State → CheckM β} (h : W.TracksFrom d s E' (f s) (g s)) :
    W.TracksFrom d s E' (MonadState.get >>= f) (MonadState.get >>= g) := h

/-- The second part starts where the first one ends. -/
theorem bind (hx : W.TracksFrom d s E x y)
    (hf : ∀ a s₁, E a s₁ → W.Inv s₁ → W.TracksFrom d s₁ E' (f a) (g a)) :
    W.TracksFrom d s E' (x >>= f) (y >>= g) := by
  obtain ⟨⟨hinv, hgrows, hE⟩, hsame⟩ := hx
  unfold TracksFrom
  simp only [bind_run]
  cases hrun : x d s with
  | error e s₁ =>
    rw [hrun] at hinv hgrows hsame
    exact ⟨⟨hinv, hgrows, nofun⟩, fun hfinal => by rw [hsame hfinal]⟩
  | ok a s₁ =>
    rw [hrun] at hinv hgrows hsame
    obtain ⟨⟨hinv', hgrows', hE'⟩, hsame'⟩ := hf a s₁ (hE a s₁ hrun) hinv
    refine ⟨⟨hinv', W.grows_trans hgrows hgrows', hE'⟩, fun hfinal => ?_⟩
    rw [hsame (W.grows_trans hgrows' hfinal)]
    exact hsame' hfinal

end TracksFrom

namespace Tracks

variable {x y : CheckM α} {f g : α → CheckM β}

/-- Giving a value makes no requests. -/
theorem pure (a : α) : W.Steady d (Pure.pure a : CheckM α) := fun _ hs => ⟨.same hs ⟨.of_eq rfl, rfl, rfl, rfl, rfl⟩, fun _ => rfl⟩

/-- A fault makes no requests. -/
theorem throw (e : Fault) : W.Steady d (MonadExcept.throw e : CheckM α) :=
  fun _ hs => ⟨.same hs ⟨.of_eq rfl, rfl, rfl, rfl, rfl⟩, fun _ => rfl⟩

/-- Computations come to the same if their steps do. -/
theorem bind (hx : W.Tracks d x y) (hf : ∀ a, W.Tracks d (f a) (g a)) : W.Tracks d (x >>= f) (y >>= g) :=
  fun s hs => (hx s hs).bind fun a s₁ heven hs₁ =>
    (hf a s₁ hs₁).mono fun _ _ heven' => W.even_trans heven heven'

/-- What is made of the values of two computations is the same if the values are. -/
theorem map {g : α → β} (hx : W.Tracks d x y) : W.Tracks d (g <$> x) (g <$> y) := by
  rw [← bind_pure_comp, ← bind_pure_comp]
  exact .bind hx fun _ => .pure _

/-- Computations come to the same where their values do not matter. -/
theorem discard (hx : W.Tracks d x y) : W.Tracks d (discard x) (discard y) := .map hx

/-- Computations come to the same if their branches do. -/
theorem ite {p : Prop} [Decidable p] {x' y' : CheckM α} (hx : W.Tracks d x y) (hy : W.Tracks d x' y') :
    W.Tracks d (if p then x else x') (if p then y else y') := by
  split
  · exact hx
  · exact hy

/-- What follows a reading of the state. -/
theorem get {f g : State → CheckM β} (h : ∀ s, W.Tracks d (f s) (g s)) :
    W.Tracks d (MonadState.get >>= f) (MonadState.get >>= g) := fun s hs => h s s hs

/-- Names are found in the directory. -/
theorem read {f g : Directory → CheckM β} (h : W.Tracks d (f d) (g d)) :
    W.Tracks d (MonadReader.read >>= f) (MonadReader.read >>= g) := fun s hs => h s hs

/-- A change that leaves the tables. -/
theorem update {f : State → State} (h : ∀ s : State, s.Leaves (f s)) : W.Steady d (modify f) :=
  fun s hs => ⟨.same hs (h s), fun _ => rfl⟩

/-- A computation on types. -/
theorem types (x : TypeM α) : W.Steady d (onTypes x) := by
  refine fun s hs => ⟨?_, fun _ => rfl⟩
  simp only [onTypes]
  split <;> exact .same hs ⟨.of_eq rfl, rfl, rfl, rfl, rfl⟩

/-- Going through a list comes to the same if each step does. -/
theorem forM {f g : α → CheckM PUnit} {l : List α} (h : ∀ a ∈ l, W.Tracks d (f a) (g a)) :
    W.Tracks d (l.forM f) (l.forM g) := by
  induction l with
  | nil => exact .pure _
  | cons a l ih =>
    exact .bind (h a (by simp)) fun _ => ih fun b hb => h b (by simp [hb])

/-- Computing a list comes to the same if each step does. -/
theorem mapM {f g : α → CheckM β} {l : List α} (h : ∀ a ∈ l, W.Tracks d (f a) (g a)) :
    W.Tracks d (l.mapM f) (l.mapM g) := by
  induction l with
  | nil => exact .pure _
  | cons a l ih =>
    rw [List.mapM_cons, List.mapM_cons]
    exact .bind (h a (by simp)) fun _ => .bind (ih fun b hb => h b (by simp [hb])) fun _ => .pure _

/-- Asking whether some element has a property comes to the same if each question does. -/
theorem anyM {f g : α → CheckM Bool} {l : List α} (h : ∀ a ∈ l, W.Tracks d (f a) (g a)) :
    W.Tracks d (l.anyM f) (l.anyM g) := by
  induction l with
  | nil => exact .pure _
  | cons a l ih =>
    refine .bind (h a (by simp)) fun b => ?_
    cases b with
    | true => exact .pure _
    | false => exact ih fun b hb => h b (by simp [hb])

end Tracks

/-- The watch over everything that stays the same. -/
def fixed (s₀ : State) : Watch where
  Inv s := s₀.Leaves s
  Grows _ _ := True
  Even _ _ := True
  final := s₀
  grows_trans _ _ := trivial
  even_trans _ _ := trivial
  same h hs := ⟨hs.trans h, trivial, trivial⟩

/-- A computation without requests leaves the tables. -/
theorem leaves_of_steady {x : CheckM α} (h : ∀ W : Watch, W.Steady d x) (s : State) :
    s.Leaves (endState (x d s)) :=
  (h (fixed s) s (.refl s)).1.1

/-- A computation without requests, watched from a state on. -/
theorem TracksFrom.of_steady {x : CheckM α} (h : ∀ W : Watch, W.Steady d x) {s : State} (hs : W.Inv s) :
    W.TracksFrom d s (fun _ s' => s.Leaves s') x x := by
  obtain ⟨⟨hinv, hgrows, -⟩, hsame⟩ := h W s hs
  refine ⟨⟨hinv, hgrows, fun a s' hr => ?_⟩, hsame⟩
  have hleaves := leaves_of_steady h s
  rwa [hr] at hleaves

/-! ## Reports and blocks -/

variable {scope : Scope} {c : Context} {location : Option Location} {code : Code}

/-- A report makes no requests. -/
theorem steady_report {severity : Severity} {message : String} :
    W.Steady d (report scope severity location code message) := .update fun _ => ⟨.of_eq rfl, rfl, rfl, rfl, rfl⟩

/-- A reported error makes no requests. -/
theorem steady_error {message : String} : W.Steady d (reportError scope location code message) :=
  steady_report

/-- Rendering a type makes no requests. -/
theorem steady_textOf (t : Ty) : W.Steady d (textOf t) := .types _

/-- An error whose message mentions a type, and a value. -/
theorem steady_telling {t : Ty} {message : String → String} {y : CheckM α} (hy : W.Steady d y) :
    W.Steady d (do
      let text ← textOf t
      reportError scope location code (message text)
      y) :=
  .bind (steady_textOf t) fun _ => .bind steady_error fun _ => hy

/-- Postponing a check makes no requests. -/
theorem steady_postpone (p : Postponed) : W.Steady d (postpone p) := .update fun _ => ⟨.of_eq rfl, rfl, rfl, rfl, rfl⟩

/-- Looking at the declaration under check makes no requests. -/
theorem steady_currentBody : W.Steady d c.currentBody := by
  unfold Context.currentBody
  split
  · exact .throw _
  · exact .get fun _ => .pure _

/-- Changing the declaration under check makes no requests. -/
theorem steady_setBody (i : Nat) (b : Body) : W.Steady d (Context.setBody i b) :=
  .update fun _ => ⟨.of_eq rfl, rfl, rfl, by simp, rfl⟩

/-- Opening a block makes no requests. -/
theorem steady_push : W.Steady d c.push := .bind steady_currentBody fun _ => steady_setBody _ _

/-- Closing a block makes no requests. -/
theorem steady_pop : W.Steady d c.pop := by
  refine .bind steady_currentBody fun r => ?_
  obtain ⟨i, b⟩ := r
  dsimp only
  split
  · exact steady_setBody _ _
  · exact .throw _

/-- Entering a loop makes no requests. -/
theorem steady_enterLoop : W.Steady d c.enterLoop := .bind steady_currentBody fun _ => steady_setBody _ _

/-- Leaving a loop makes no requests. -/
theorem steady_leaveLoop : W.Steady d c.leaveLoop := by
  refine .bind steady_currentBody fun r => ?_
  obtain ⟨i, b⟩ := r
  dsimp only
  split
  · exact .throw _
  · exact steady_setBody _ _

/-- Asking whether there is a loop around makes no requests. -/
theorem steady_inLoop : W.Steady d c.inLoop := by
  unfold Context.inLoop
  split
  · exact .pure _
  · exact .get fun _ => .pure _

/-- Asking for the type of the result makes no requests. -/
theorem steady_result : W.Steady d c.result? := by
  unfold Context.result?
  split
  · exact .pure _
  · exact .get fun _ => .pure _

/-- Recording a reference makes no requests. -/
theorem steady_refer (q : String) : W.Steady d (c.refer q) := by
  unfold Context.refer
  split
  · exact .pure _
  · exact .ite (.pure _) (.get fun _ => .ite (.pure _) (steady_setBody _ _))

/-- Asking for the recorded references makes no requests. -/
theorem steady_references : W.Steady d c.references := by
  unfold Context.references
  split
  · exact .pure _
  · exact .get fun _ => .pure _

/-- New storage makes no requests. -/
theorem steady_newStorage (name qualified : String) (type : Ty) (kind : StorageClass) :
    W.Steady d (Context.newStorage name qualified type kind location) :=
  fun _ hs => ⟨.same hs ⟨.of_eq rfl, rfl, rfl, rfl, rfl⟩, fun _ => rfl⟩

/-- Declaring a local variable makes no requests. -/
theorem steady_declare (name : String) (type : Ty) (kind : StorageClass) :
    W.Steady d (c.declare name type kind location) := by
  refine .ite (.bind (.throw _) fun _ => ?_) ?_
  all_goals
    refine .bind steady_currentBody fun r => .bind (steady_newStorage _ _ _ _) fun st => ?_
    split
    · exact .throw _
    · exact .ite (.bind steady_error fun _ => .pure _) (.bind (steady_setBody _ _) fun _ => .pure _)

/-- Looking up a name makes no requests. -/
theorem steady_lookup (name : String) : W.Steady d (c.lookup name location) := by
  refine .get fun s => ?_
  split
  · exact .pure _
  · exact .bind steady_error fun _ => .pure _
  · refine .read (.get fun s => ?_)
    split
    · exact .bind steady_error fun _ => .pure _
    · exact .bind steady_error fun _ => .pure _
    · exact .ite (.bind (steady_refer _) fun _ => .pure _) (.pure _)

/-- Looking up a template makes no requests. -/
theorem steady_instantiate (name : String) : W.Steady d (c.instantiate name location) :=
  .ite (.bind steady_error fun _ => .pure _) (.pure _)

/-! ## Types -/

/-- Looking up a type makes no requests. -/
theorem steady_lookupType (name : String) : W.Steady d (lookupType scope name) := by
  unfold lookupType
  split
  · exact .pure _
  · exact .pure _
  · exact .read (.get fun _ => .pure _)

/-- Resolving a name makes no requests. -/
theorem steady_resolveName (id : Nat) (text : String) : W.Steady d (resolveName scope id text location) := by
  refine .get fun s => .ite (.pure _) ?_
  refine .bind (steady_lookupType text) fun r => ?_
  cases r with
  | error message => exact .bind (.bind steady_error fun _ => .pure _) fun _ => .types _
  | ok found =>
    cases found with
    | none => exact .bind (.bind steady_error fun _ => .pure _) fun _ => .types _
    | some b => exact .bind (.pure _) fun _ => .types _

/-- Checking the arguments of a template makes no requests. -/
theorem steady_checkApplication (id head : Nat) (text : String) (given : Nat) :
    W.Steady d (checkApplication scope id head text given location) := by
  refine .bind (.types _) fun target => .bind (.types _) fun failed => .ite (.types _) ?_
  split
  · refine .bind (.types _) fun _ => .ite ?_ (.pure _)
    exact .bind steady_error fun _ => .types _
  · exact .bind steady_error fun _ => .types _

/-- Binding the names in a type makes no requests, however many steps it has. -/
theorem steady_bindNamesWithin (n : Nat) (t : Ty) : W.Steady d (bindNamesWithin scope n t) := by
  induction n generalizing t with
  | zero => exact .throw _
  | succ n ih =>
    cases t with
    | builtin => exact .pure _
    | name => exact steady_resolveName _ _
    | pointer e | slice e | array e | dot e => exact ih e
    | struct members => exact .forM fun m _ => ih m.type
    | function arguments result => exact .bind (.forM fun a _ => ih a) fun _ => ih result
    | apply id head text arguments =>
      refine .get fun s => .bind (steady_resolveName _ _) fun _ => .bind (.forM fun a _ => ih a) fun _ => ?_
      exact .ite (steady_checkApplication _ _ _ _) (.pure _)
    | var v =>
      refine .get fun s => ?_
      cases s.types.bound? v with
      | some => exact ih _
      | none => exact .pure _
    | template => exact .bind (.types _) fun _ => ih _

/-- Binding the names in a type makes no requests. -/
theorem steady_bindNames (t : Ty) : W.Steady d (bindNames scope t) :=
  .bind (.types _) fun n => steady_bindNamesWithin n t

/-- Checking members makes no requests if checking their types makes none. -/
theorem steady_checkMembers {whole : Ty} {check : Ty → CheckM Unit} (hcheck : ∀ t, W.Steady d (check t))
    (seen : List String) (members : List (Types.Member Ty)) :
    W.Steady d (checkMembers scope whole check seen members) := by
  induction members generalizing seen with
  | nil => exact .pure _
  | cons m rest ih =>
    have hrest : W.Steady d (do
        check m.type
        if ← onTypes (Types.isVoid m.type) then
          reportError scope m.location .voidValue ("member " ++ m.name ++ " cannot have type void")
        checkMembers scope whole check (m.name :: seen) rest) := by
      refine .bind (hcheck _) fun _ => .bind (.types _) fun _ => ?_
      exact .ite (.bind steady_error fun _ => ih _) (ih _)
    exact .ite (steady_telling hrest) hrest

/-- Following a reference makes no requests if checking what it stands for makes none. -/
theorem steady_followReference {path : Types.Path} {check : Types.Path → CheckM Unit}
    (hcheck : ∀ p, W.Steady d (check p)) (name label : String) :
    W.Steady d (followReference scope path location name label check) := by
  unfold followReference
  split
  · exact .pure _
  · exact .bind steady_error fun _ => .pure _
  · exact .bind (hcheck _) fun _ => .pure _

/-- Checking a member type makes no requests. -/
theorem steady_checkDot (base : Ty) (member : String) : W.Steady d (checkDot scope base member location) := by
  refine .bind (.types _) fun shape => .bind (.types _) fun _ => .ite (.pure _) ?_
  split
  · refine .bind (.types _) fun _ => .ite ?_ (.pure _)
    exact .bind (steady_textOf _) fun _ => steady_error
  · exact .bind (steady_textOf _) fun _ => steady_error

/-- Following a type makes no requests. -/
theorem steady_kindcheckWithin (n : Nat) (scope : Scope) (path : Types.Path) (t : Ty) :
    W.Steady d (kindcheckWithin n scope path t) := by
  induction n generalizing scope path t with
  | zero => exact .throw _
  | succ n ih =>
    cases t with
    | builtin => exact .pure _
    | name id text l =>
      refine .bind (steady_resolveName _ _) fun _ => .get fun s => ?_
      split
      · exact .pure _
      · split
        · exact .pure _
        · exact .pure _
        · refine .bind (steady_followReference (fun _ => ih _ _ _) _ _) fun _ => ?_
          exact .ite (.types _) (.pure _)
    | pointer e | slice e => exact ih _ _ _
    | array e => exact .ite (ih _ _ _) (.ite steady_error (ih _ _ _))
    | struct members => exact steady_checkMembers (fun _ => ih _ _ _) _ _
    | function arguments result => exact .bind (.forM fun a _ => ih _ _ a) fun _ => ih _ _ _
    | apply id head text arguments l =>
      refine .bind (steady_bindNames _) fun _ => .bind (.types _) fun result => .bind (.types _) fun _ => ?_
      refine .ite (.pure _) (.get fun s => .bind (.types _) fun _ => .bind (.types _) fun _ => ?_)
      refine .bind (.mapM fun a _ => steady_textOf a) fun _ => ?_
      split
      · exact .bind steady_error fun _ => .types _
      · refine .bind (steady_followReference (fun _ => ih _ _ _) _ _) fun _ => ?_
        exact .ite (.types _) (.pure _)
    | dot base => exact .bind (ih _ _ _) fun _ => steady_checkDot _ _
    | var v =>
      refine .get fun s => ?_
      cases s.types.bound? v with
      | some => exact ih _ _ _
      | none => exact .pure _
    | template => exact .bind (.types _) fun _ => ih _ _ _

/-- Checking a type makes no requests. -/
theorem steady_checkType (t : Ty) : W.Steady d (checkType scope t) :=
  .bind (steady_bindNames t) fun _ => .bind (.types _) fun _ => steady_kindcheckWithin _ _ _ _

/-- Checking a written type makes no requests. -/
theorem steady_checkWritten (t : TypeExpr) : W.Steady d (checkWritten c t) :=
  .bind (.types _) fun _ => .bind (steady_checkType _) fun _ => .pure _

/-! ## Values -/

/-- Checking that values have a type makes no requests. -/
theorem steady_checkValueType (t : Ty) (what : String) : W.Steady d (checkValueType c t location what) := by
  refine .bind (.types _) fun _ => .ite (.pure _) (.bind (.types _) fun _ => .ite ?_ ?_)
  · exact .bind steady_error fun _ => .pure _
  · refine .bind (.types _) fun shape => ?_
    split
    · exact steady_telling (.pure _)
    · exact .pure _

/-- Comparing types makes no requests. -/
theorem steady_checkConvertible (got want : Ty) (what : String) :
    W.Steady d (checkConvertible c location got want what) := by
  refine .bind (.types _) fun _ => .ite (.pure _) ?_
  exact .bind (steady_textOf _) fun _ => steady_telling (.pure _)

/-- Using a value as one of another type makes no requests. -/
theorem steady_useAs (e : Checked.Expr) (got want : Ty) (what : String) :
    W.Steady d (useAs c location e got want what) :=
  .bind (steady_checkConvertible _ _ _) fun _ => .ite (.types _) (.pure _)

/-- Looking for a member makes no requests. -/
theorem steady_memberOf (t : Ty) (name : String) : W.Steady d (memberOf c t name location) := by
  have hlast (found : Option MemberInfo) : W.Steady d (do
      if found.isNone then
        reportError c.scope location .noMember ((← textOf t) ++ " has no member " ++ name)
      return found) :=
    .ite (steady_telling (.pure _)) (.pure _)
  refine .bind (.types _) fun shape => ?_
  cases shape with
  | struct members =>
    refine .bind (.types _) fun found => ?_
    cases found with
    | none => exact .bind (.pure _) hlast
    | some => exact .bind (.pure _) hlast
  | pointer => exact steady_telling (.pure _)
  | _ => exact .bind (.pure _) hlast

/-- Looking for a function of the heap makes no requests. -/
theorem steady_heapFunction (name : String) (want : Ty) : W.Steady d (heapFunction c name want location) := by
  refine .bind (steady_lookup _) fun found => ?_
  cases found with
  | none => exact .pure _
  | some st =>
    have hlast (fits : Bool) : W.Steady d (do
        if fits then return some st
        reportError c.scope location .mismatch
          ("global::" ++ name ++ " must be a function of type " ++ (← textOf want) ++ ", found " ++
            (← textOf st.type))
        return none) :=
      .ite (.pure _) (.bind (steady_textOf _) fun _ => steady_telling (.pure _))
    exact .ite (.bind (.types _) hlast) (.bind (.pure _) hlast)

end Watch

end Qll.Check
