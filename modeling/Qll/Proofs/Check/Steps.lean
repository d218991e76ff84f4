import Qll.Check.Kind
import Qll.Program.Names
import Qll.Proofs.Program.Lookup

/-!
# Steps of checking

Checking adds to its state: reports stay, declarations stay, and a declaration under check never
forgets a name it referred to. A state is doomed when an error was reported, or a check that waits
is bound to report one; nothing is claimed of what a doomed run leaves behind. `Checks` says of a
computation that it only adds to the state and that, unless the run is doomed, it keeps an invariant
and gives what is said.
-/

namespace Qll.Check

open Qll.Computation
open Qll.Types (Ty Vocabulary TypeM Store)
open Program (Offers)

/-! ## Tables -/

/-- An entry of a changed table is an old one, or the one that was changed. -/
theorem mem_modify_at {α : Type} {table : Array α} {i : Nat} {f : α → α} {a : α}
    (h : a ∈ table.modify i f) : a ∈ table ∨ ∃ b, table[i]? = some b ∧ a = f b := by
  obtain ⟨k, hk⟩ := Array.mem_iff_getElem?.1 h
  rw [Array.getElem?_modify] at hk
  split at hk
  · rename_i hi
    obtain ⟨b, hb, rfl⟩ := Option.map_eq_some_iff.1 hk
    exact .inr ⟨b, hi ▸ hb, rfl⟩
  · exact .inl (Array.mem_of_getElem? hk)

/-- An entry of a changed table is an old one, or the change of an old one. -/
theorem mem_modify {α : Type} {table : Array α} {i : Nat} {f : α → α} {a : α}
    (h : a ∈ table.modify i f) : a ∈ table ∨ ∃ b ∈ table, a = f b :=
  (mem_modify_at h).imp_right fun ⟨b, hb, ha⟩ => ⟨b, Array.mem_of_getElem? hb, ha⟩

/-- What holds of all entries and of a new one holds of the longer table. -/
theorem forall_push {α : Type} {table : Array α} {b : α} {p : α → Prop} (h : ∀ a ∈ table, p a)
    (hb : p b) : ∀ a ∈ table.push b, p a := by
  intro a ha
  obtain ha | rfl := Array.mem_push.1 ha
  · exact h a ha
  · exact hb

/-- What a change leaves alone is the same in the whole table. -/
theorem map_modify {α β : Type} {table : Array α} {i : Nat} {f : α → α} {g : α → β}
    (h : ∀ a, g (f a) = g a) : (table.modify i f).toList.map g = table.toList.map g := by
  refine List.ext_getElem? fun k => ?_
  simp only [List.getElem?_map, Array.getElem?_toList, Array.getElem?_modify]
  split
  · cases table[k]? <;> simp [h]
  · rfl

/-! ## States -/

namespace State

/-- The names of the declarations that have code or data. -/
def nodes (s : State) : List String :=
  s.globals.toList.map (·.qualified) ++ s.functions.toList.map (·.qualified)

/-- The static names that a declaration under check referred to so far. -/
def recorded (s : State) (body : Nat) : List String :=
  ((s.bodies[body]?).map (·.references)).getD []

/-- A declaration that was not opened referred to nothing. -/
theorem recorded_eq (s : State) (i : Nat) : s.recorded i = ((s.bodies[i]?).getD {}).references := by
  unfold recorded
  cases s.bodies[i]? <;> rfl

/-- An error was reported, or will be. -/
def Doomed (s : State) : Prop :=
  s.failed = true ∨ ∃ scope name location, .bareTemplate scope name location ∈ s.postponed

/-- No report is graver than an error. -/
def Graded (s : State) : Prop := ∀ d ∈ s.reports, d.isError = true → d.severity = .error

/-- What a step leaves of a state: everything that later steps may have looked at. -/
structure Grows (s s' : State) : Prop where
  failed : s.failed = true → s'.failed = true
  graded : s.Graded → s'.Graded
  doomed : s.Doomed → s'.Doomed
  nodes : s.nodes ⊆ s'.nodes
  bodies : s.bodies.size ≤ s'.bodies.size
  recorded : ∀ i, s.recorded i ⊆ s'.recorded i

variable {s s' s'' : State}

/-- A state grows from itself. -/
theorem Grows.refl (s : State) : s.Grows s :=
  ⟨fun h => h, fun h => h, fun h => h, fun _ h => h, Nat.le_refl _, fun _ _ h => h⟩

/-- A state grows in two steps. -/
theorem Grows.trans (h : s.Grows s') (h' : s'.Grows s'') : s.Grows s'' :=
  ⟨fun hs => h'.failed (h.failed hs), fun hs => h'.graded (h.graded hs),
    fun hs => h'.doomed (h.doomed hs), fun _ hq => h'.nodes (h.nodes hq),
    Nat.le_trans h.bodies h'.bodies, fun i _ hq => h'.recorded i (h.recorded i hq)⟩

/-- A change that touches neither reports nor declarations under check. -/
theorem Grows.of_same (hreports : s'.reports = s.reports) (hpostponed : s'.postponed = s.postponed)
    (hbodies : s'.bodies = s.bodies) (hnodes : s.nodes ⊆ s'.nodes) : s.Grows s' where
  failed h := by simpa [State.failed, errors, hreports] using h
  graded h := by rwa [Graded, hreports]
  doomed h := by simpa [Doomed, State.failed, errors, hreports, hpostponed] using h
  nodes := hnodes
  bodies := Nat.le_of_eq (congrArg Array.size hbodies.symm)
  recorded i q hq := by simpa [State.recorded, hbodies] using hq

/-- A report counts if it is an error. -/
theorem errors_push (s : State) (d : Diagnostic) :
    { s with reports := s.reports.push d }.errors =
      if d.severity = .error then s.errors + 1 else s.errors := by
  simp [errors]

/-- Errors stay when something is reported. -/
theorem failed_push {s : State} (d : Diagnostic) (h : s.failed = true) :
    { s with reports := s.reports.push d }.failed = true := by
  simp only [failed, bne_iff_ne, ne_eq, errors_push] at h ⊢
  split <;> omega

/-- A report that is no graver than an error keeps the reports graded. -/
theorem graded_push {s : State} {d : Diagnostic} (hd : d.isError = true → d.severity = .error)
    (h : s.Graded) : { s with reports := s.reports.push d }.Graded := by
  intro d' hd' herror
  obtain hd' | rfl := Array.mem_push.1 hd'
  · exact h d' hd' herror
  · exact hd herror

/-- A report leaves errors before it. -/
theorem Grows.report (s : State) {d : Diagnostic} (hd : d.isError = true → d.severity = .error) :
    s.Grows { s with reports := s.reports.push d } where
  failed := failed_push d
  graded := graded_push hd
  doomed h := h.imp (failed_push d) fun hs => hs
  nodes := fun _ h => h
  bodies := Nat.le_refl _
  recorded := fun _ _ h => h

/-- An error dooms the run. -/
theorem doomed_of_error (s : State) {d : Diagnostic} (h : d.severity = .error) :
    { s with reports := s.reports.push d }.Doomed := by
  simp [Doomed, failed, errors_push, h]

/-- A check is put off. -/
theorem Grows.postpone (s : State) (p : Postponed) :
    s.Grows { s with postponed := s.postponed.push p } where
  failed h := h
  graded h := h
  doomed h := h.imp (fun hs => hs) fun ⟨scope, name, location, hp⟩ =>
    ⟨scope, name, location, Array.mem_push_of_mem p hp⟩
  nodes := fun _ h => h
  bodies := Nat.le_refl _
  recorded := fun _ _ h => h

/-- A declaration under check is changed, and forgets no name. -/
theorem Grows.setBody {i : Nat} {b : Body} (h : s.recorded i ⊆ b.references) :
    s.Grows { s with bodies := s.bodies.set! i b } where
  failed h := h
  graded h := h
  doomed h := h
  nodes := fun _ h => h
  bodies := by simp
  recorded j q hq := by
    simp only [State.recorded, Array.set!_eq_setIfInBounds, Array.getElem?_setIfInBounds]
    split
    · next hij =>
      subst hij
      split
      · exact h hq
      · next hi => simp [State.recorded, hi] at hq
    · exact hq

/-- A declaration is opened. -/
theorem Grows.openBody (s : State) (b : Body) : s.Grows { s with bodies := s.bodies.push b } where
  failed h := h
  graded h := h
  doomed h := h
  nodes := fun _ h => h
  bodies := by simp
  recorded j q hq := by
    simp only [State.recorded, Array.getElem?_push]
    split
    · next hj => simp [State.recorded, hj] at hq
    · exact hq

end State

/-! ## Settings -/

/-- What a computation may rely on: an invariant of its states that a change of types keeps, and
what is known of the states ahead. -/
structure Setting where
  vocabulary : Vocabulary
  Inv : State → Prop
  Ahead : State → Prop
  back : ∀ {s s'}, s.Grows s' → Ahead s' → Ahead s
  sound : ∀ {s}, Ahead s → ¬ s.Doomed
  fits : ∀ {s}, Inv s → vocabulary.Fits s.types
  offers : ∀ {s}, Inv s → Offers vocabulary s
  types : ∀ {s types}, Inv s → vocabulary.Fits types → Inv { s with types }
  reports : ∀ {s reports}, Inv s → Inv { s with reports }

/-- A computation adds to its state and, given `P` and unless the run is doomed, keeps the
invariant and gives what is said. -/
def Checks {α : Type} (S : Setting) (P : Prop) (Q : α → Prop) (x : CheckM α) : Prop :=
  ∀ s a s', x Program.directory s = .ok a s' →
    s.Grows s' ∧ (P → S.Inv s → S.Ahead s' → S.Inv s' ∧ Q a)

section Ending

variable {α β : Type} {d : Directory} {s s' : State}

/-- A sequence of checks ends well when its parts do. -/
theorem check_bind_ok {x : CheckM α} {f : α → CheckM β} {b : β} :
    (x >>= f) d s = .ok b s' ↔ ∃ a s₁, x d s = .ok a s₁ ∧ f a d s₁ = .ok b s' :=
  bind_ok (x := x d) (f := fun a => f a d)

/-- Giving a value ends well with that value, and leaves the state. -/
theorem check_pure_ok {a b : α} : (pure a : CheckM α) d s = .ok b s' ↔ a = b ∧ s = s' := pure_ok

/-- What follows a reading of the state is given the state. -/
theorem check_get_ok {g : State → CheckM β} {b : β} :
    (MonadState.get >>= g : CheckM β) d s = .ok b s' ↔ g s d s = .ok b s' := Iff.rfl

/-- Reading the state gives it and leaves it. -/
theorem check_state_ok {t : State} :
    (MonadState.get : CheckM State) d s = .ok t s' ↔ s = t ∧ s = s' := get_ok

/-- Setting the state leaves the new one. -/
theorem check_set_ok {t : State} {u : PUnit} :
    (set t : CheckM PUnit) d s = .ok u s' ↔ t = s' := set_ok

/-- Changing the state leaves the changed one. -/
theorem check_modify_ok {g : State → State} {u : PUnit} :
    (modify g : CheckM PUnit) d s = .ok u s' ↔ g s = s' := modify_ok

/-- A fault does not end well. -/
theorem check_throw_ok {e : Fault} {a : α} : (throw e : CheckM α) d s ≠ .ok a s' := throw_ok

end Ending

namespace Checks

variable {α β : Type} {S : Setting} {P P' : Prop} {Q Q' : α → Prop} {R : β → Prop} {x : CheckM α}
  {f : α → CheckM β}

/-- A value may be given that is as it is said. -/
theorem pure {a : α} (h : P → Q a) : Checks S P Q (Pure.pure a) := by
  intro s b s' hrun
  obtain ⟨rfl, rfl⟩ := pure_ok.1 hrun
  exact ⟨.refl s, fun hP hs _ => ⟨hs, h hP⟩⟩

/-- Of a fault nothing is said. -/
theorem throw {e : Fault} : Checks S P Q (MonadExcept.throw e : CheckM α) :=
  fun _ _ _ h => absurd h throw_ok

/-- What the first part gives may be relied on in the second. -/
theorem bind (hx : Checks S P Q x) (hf : ∀ a, Checks S (P ∧ Q a) R (f a)) :
    Checks S P R (x >>= f) := by
  intro s b s' hrun
  obtain ⟨a, s₁, hxs, hfs⟩ := bind_ok.1 hrun
  obtain ⟨hgrows, hkeeps⟩ := hx s a s₁ hxs
  obtain ⟨hgrows', hkeeps'⟩ := hf a s₁ b s' hfs
  refine ⟨hgrows.trans hgrows', fun hP hs ahead => ?_⟩
  obtain ⟨hs₁, ha⟩ := hkeeps hP hs (S.back hgrows' ahead)
  exact hkeeps' ⟨hP, ha⟩ hs₁ ahead

/-- A part of which nothing is said before another. -/
theorem seq (hx : Checks S P (fun _ => True) x) (hf : ∀ a, Checks S P R (f a)) :
    Checks S P R (x >>= f) :=
  hx.bind fun a s b s' hrun => (hf a s b s' hrun).imp_right fun h hP => h hP.1

/-- More may be known before, and less be said after. -/
theorem mono (hx : Checks S P Q x) (hP : P' → P) (hQ : P' → ∀ a, Q a → Q' a) : Checks S P' Q' x :=
  fun s a s' hrun => (hx s a s' hrun).imp_right fun h hP' hs ahead =>
    (h (hP hP') hs ahead).imp_right (hQ hP' a)

/-- More may be known before. -/
theorem pre (hx : Checks S P Q x) (hP : P' → P) : Checks S P' Q x := hx.mono hP fun _ _ h => h

/-- Of a part that is done for its effect nothing needs to be said. -/
theorem drop (hx : Checks S P Q x) : Checks S P (fun _ => True) x :=
  hx.mono (fun h => h) fun _ _ _ => trivial

/-- What is made of a value is as it is said. -/
theorem map {g : α → β} (hx : Checks S P (fun a => R (g a)) x) : Checks S P R (g <$> x) := by
  intro s b s' hrun
  obtain ⟨a, ha, rfl⟩ := (map_ok (f := g) (x := x Program.directory)).1 hrun
  exact hx s a s' ha

/-- Nothing needs to be said of a value that does not matter. -/
theorem discard (hx : Checks S P Q x) : Checks S P (fun _ => True) (discard x) := by
  intro s u s' hrun
  obtain ⟨a, ha, -⟩ := map_ok (f := Function.const α ()) (x := x Program.directory).1 hrun
  exact hx.drop s a s' ha

/-- Either of two computations may be taken. -/
theorem ite {c : Prop} [Decidable c] {y : CheckM α} (hx : Checks S P Q x) (hy : Checks S P Q y) :
    Checks S P Q (if c then x else y) := by
  split
  · exact hx
  · exact hy

/-- A computation on types. -/
theorem types {x : TypeM α} (hx : P → S.vocabulary.Keeps Q x) : Checks S P Q (onTypes x) := by
  intro s a s' hrun
  simp only [onTypes] at hrun
  split at hrun
  · next b types hb =>
    cases hrun
    refine ⟨.of_same rfl rfl rfl fun _ h => h, fun hP hs _ => ?_⟩
    obtain ⟨hfits, ha⟩ := hx hP s.types _ types (S.fits hs) hb
    exact ⟨S.types hs hfits, ha⟩
  · cases hrun

/-- The text of a type. -/
theorem textOf (t : Ty) : Checks S P (fun _ => True) (textOf t) :=
  .types fun _ => Types.Vocabulary.Keeps.read fun _ _ _ _ => trivial

variable {scope : Types.Scope} {location : Option Source.Location} {code : Diagnostic.Code}
  {message : String}

/-- After an error nothing needs to be said. -/
theorem error : Checks S P (fun _ => False) (reportError scope location code message) := by
  intro s a s' hrun
  obtain rfl := modify_ok.1 hrun
  exact ⟨.report s fun _ => rfl, fun _ _ ahead =>
    absurd (State.doomed_of_error s rfl) (S.sound ahead)⟩

/-- An error, of which nothing is said. -/
theorem noted : Checks S P (fun _ => True) (reportError scope location code message) :=
  error.drop

/-- What follows an error only has to add to the state. -/
theorem fail {k : Unit → CheckM β} (hk : ∀ u, Checks S False R (k u)) :
    Checks S P R (reportError scope location code message >>= k) :=
  .bind .error fun u => (hk u).pre And.right

/-- An error and a value. -/
theorem failing {a : α} :
    Checks S P Q (reportError scope location code message >>= fun _ => Pure.pure a) :=
  .fail fun _ => .pure False.elim

/-- What follows a reading of the state knows the invariant. -/
theorem get {g : State → CheckM β} (h : ∀ s, Checks S (P ∧ S.Inv s) R (g s)) :
    Checks S P R (MonadState.get >>= g) := by
  intro s b s' hrun
  obtain ⟨hgrows, hkeeps⟩ := h s s b s' hrun
  exact ⟨hgrows, fun hP hs ahead => hkeeps ⟨hP, hs⟩ hs ahead⟩

/-- What follows a reading of the state knows the invariant, and what is ahead. -/
theorem look {g : State → CheckM β} (h : ∀ s, Checks S (P ∧ S.Inv s ∧ S.Ahead s) R (g s)) :
    Checks S P R (MonadState.get >>= g) := by
  intro s b s' hrun
  obtain ⟨hgrows, hkeeps⟩ := h s s b s' hrun
  exact ⟨hgrows, fun hP hs ahead => hkeeps ⟨hP, hs, S.back hgrows ahead⟩ hs ahead⟩

/-- What is seen from the state in the end may be relied on from the beginning. -/
theorem hindsight {F : Prop} (h : Checks S (P ∧ F) Q x)
    (hF : ∀ s a s', x Program.directory s = .ok a s' → S.Ahead s' → F) : Checks S P Q x := by
  intro s a s' hrun
  obtain ⟨hgrows, hkeeps⟩ := h s a s' hrun
  exact ⟨hgrows, fun hP hs ahead => hkeeps ⟨hP, hF s a s' hrun ahead⟩ hs ahead⟩

/-- Names are found in the namespaces of the program. -/
theorem read {g : Directory → CheckM β} (h : Checks S P R (g Program.directory)) :
    Checks S P R (MonadReader.read >>= g) := fun s b s' hrun => h s b s' hrun

/-- Each step through a list keeps the invariant. -/
theorem forM {g : α → CheckM PUnit} {l : List α} (h : ∀ a ∈ l, Checks S P (fun _ => True) (g a)) :
    Checks S P (fun _ => True) (l.forM g) := by
  induction l with
  | nil => exact .pure fun _ => trivial
  | cons a l ih =>
    exact .seq (h a (by simp)) fun _ => ih fun b hb => h b (by simp [hb])

/-- Each value of a list is as it is said. -/
theorem mapM {g : α → CheckM β} {l : List α} (h : ∀ a ∈ l, Checks S P R (g a)) :
    Checks S P (fun bs => ∀ b ∈ bs, R b) (l.mapM g) := by
  induction l with
  | nil => exact .pure (by simp)
  | cons a l ih =>
    rw [List.mapM_cons]
    refine .bind (h a (by simp)) fun b => ?_
    refine .bind ((ih fun c hc => h c (by simp [hc])).pre And.left) fun bs => ?_
    exact .pure fun ⟨⟨_, hb⟩, hbs⟩ => by simpa using ⟨hb, hbs⟩

/-- Asking for some element keeps the invariant. -/
theorem anyM {g : α → CheckM Bool} {l : List α} (h : ∀ a ∈ l, Checks S P (fun _ => True) (g a)) :
    Checks S P (fun _ => True) (l.anyM g) := by
  induction l with
  | nil => exact .pure fun _ => trivial
  | cons a l ih =>
    refine .seq (h a (by simp)) fun b => ?_
    cases b with
    | true => exact .pure fun _ => trivial
    | false => exact ih fun b hb => h b (by simp [hb])

end Checks

end Qll.Check
