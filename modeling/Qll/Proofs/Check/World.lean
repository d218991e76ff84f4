import Qll.Check.Stmt
import Qll.Proofs.Check.Resolving
import Qll.Checked.Tree
import Qll.Proofs.Source.Names
import Qll.Proofs.Types.Mangled

/-!
# The state while bodies are checked

Once all declarations are known, checking works towards a world: a vocabulary, the names that will
have code or data in the end, and the names of the template functions. A state is sound in a world
when its tables name nothing else, its types are admitted, and every storage that a checked body
names is a local one or was recorded as a reference of that body.
-/

namespace Qll.Check

open Qll.Computation
open Qll.Types (Ty Vocabulary Scope IsQualified Mangled)
open Program (Offers)

/-- What is there when checking is over. -/
structure World where
  vocabulary : Vocabulary
  /-- The names that have code or data. -/
  nodes : Set String
  /-- The names of template functions. -/
  templates : Set String

namespace World

variable (w : World)

/-- Storage of a local variable, or of a declaration that is in the end and was recorded. -/
def Recorded (R : Set String) (st : Storage) : Prop :=
  st.kind.isStatic = true → st.qualified ∈ R ∧ st.qualified ∈ w.nodes

/-- Storage that a namespace offers: that of a declaration, or of a template function. -/
structure Declared (st : Storage) : Prop where
  static : st.kind.isStatic = true
  qualified : st.qualified ≠ ""
  type : w.vocabulary.Admits st.type
  node : st.qualified ∈ w.nodes ∨
    st.qualified ∈ w.templates ∧ st.kind = .function ∧ ∃ id, st.type = .template id

/-- A declaration under check: the blocks hold local variables. -/
structure Local (b : Body) : Prop where
  scopes : ∀ block ∈ b.scopes, ∀ p ∈ block,
    p.2.kind.isStatic = false ∧ w.vocabulary.Admits p.2.type
  result : ∀ t ∈ b.result, w.vocabulary.Admits t

/-- A global variable. -/
structure SoundGlobal (g : GlobalItem) : Prop where
  storage : g.storage.kind = .global ∧ g.storage.qualified = g.qualified
  qualified : IsQualified w.vocabulary.accepts g.qualified
  type : ∀ t ∈ g.type, w.vocabulary.Admits t
  init : w.vocabulary.AcceptsAll (Source.initNames g.init)
  checked : ∀ e ∈ g.checked, e.Over (w.Recorded { q | q ∈ g.references })

/-- A function. -/
structure SoundFunction (f : FunctionItem) : Prop where
  storage : f.storage.kind = .function ∧ f.storage.qualified = f.qualified
  type : w.vocabulary.Admits f.storage.type
  qualified : f.qualified ≠ "" ∧ w.vocabulary.Names f.qualified
  params : ∀ p ∈ f.params, w.vocabulary.Admits p.type
  result : w.vocabulary.Admits f.result
  scope : w.vocabulary.Scopes f.scope
  body : w.vocabulary.AcceptsAll (Source.stmtsNames f.body)
  checked : ∀ body ∈ f.checked, Checked.StmtsOver (w.Recorded { q | q ∈ f.references }) body

/-- A template function. -/
structure SoundTemplate (t : TemplateItem) : Prop where
  qualified : IsQualified w.vocabulary.accepts t.qualified
  typeParams : w.vocabulary.AcceptsAll t.typeParams
  template : w.vocabulary.template t.template
  body : w.vocabulary.AcceptsAll (Source.stmtsNames t.body)
  instances : ∀ p ∈ t.instances, w.vocabulary.Keys p.1

/-- A state in which bodies are checked. -/
structure Sound (s : State) : Prop where
  fits : w.vocabulary.Fits s.types
  offers : Offers w.vocabulary s
  values : ∀ space ∈ s.spaces, ∀ p ∈ space.values, w.Declared p.2
  bodies : ∀ b ∈ s.bodies, w.Local b
  globals : ∀ g ∈ s.globals, w.SoundGlobal g
  functions : ∀ f ∈ s.functions, w.SoundFunction f
  items : ∀ t ∈ s.templates, w.SoundTemplate t
  templates : ∀ q ∈ w.templates, (s.templateIndex? q).isSome

/-- The setting in which the declaration `i` is checked, whose references are in `R` in the end. -/
def within (i : Option Nat) (R : Set String) : Setting where
  vocabulary := w.vocabulary
  Inv s := w.Sound s ∧ ∀ j ∈ i, j < s.bodies.size
  Ahead s := ¬ s.Doomed ∧ (∀ q ∈ s.nodes, q ∈ w.nodes) ∧ ∀ j ∈ i, ∀ q ∈ s.recorded j, q ∈ R
  back h ahead := ⟨fun hs => ahead.1 (h.doomed hs), fun q hq => ahead.2.1 q (h.nodes hq),
    fun j hj q hq => ahead.2.2 j hj q (h.recorded j hq)⟩
  sound ahead := ahead.1
  fits hs := hs.1.fits
  offers hs := hs.1.offers
  types hs hfits := ⟨⟨hfits, ⟨hs.1.offers.children, hs.1.offers.types⟩, hs.1.values, hs.1.bodies,
    hs.1.globals, hs.1.functions, hs.1.items, hs.1.templates⟩, hs.2⟩
  reports hs := ⟨⟨hs.1.fits, ⟨hs.1.offers.children, hs.1.offers.types⟩, hs.1.values, hs.1.bodies,
    hs.1.globals, hs.1.functions, hs.1.items, hs.1.templates⟩, hs.2⟩

/-- Storage that a name in a body stands for. -/
structure Found (R : Set String) (st : Storage) : Prop where
  type : w.vocabulary.Admits st.type
  static : st.kind.isStatic = true → w.Declared st ∧ st.qualified ∈ R

end World

/-! ## Blocks of a declaration under check -/

variable {w : World} {i : Nat} {R : Set String} {P : Prop} {c : Context}

/-- A declaration that was not opened has no names. -/
theorem World.local_default : w.Local {} := ⟨by simp, by simp⟩

/-- The declaration under check, and its number. -/
theorem World.Sound.local_get {s : State} (hs : w.Sound s) (j : Nat) :
    w.Local ((s.bodies[j]?).getD {}) := by
  cases hj : s.bodies[j]? with
  | none => exact World.local_default
  | some b => exact hs.bodies b (Array.mem_of_getElem? hj)

/-- A declaration under check is changed. -/
theorem World.Sound.setBody {s : State} (hs : w.Sound s) {b : Body} (hb : w.Local b) (j : Nat) :
    w.Sound { s with bodies := s.bodies.set! j b } := by
  refine ⟨hs.fits, ⟨hs.offers.children, hs.offers.types⟩, hs.values, fun b' hb' => ?_, hs.globals,
    hs.functions, hs.items, hs.templates⟩
  simp only [Array.set!_eq_setIfInBounds] at hb'
  obtain hb' | rfl := Array.mem_or_eq_of_mem_setIfInBounds hb'
  · exact hs.bodies b' hb'
  · exact hb

/-- The declaration under check is read. -/
theorem currentBody_ok (hc : c.body = some i) {s s' : State} {r : Nat × Body}
    (h : c.currentBody Program.directory s = .ok r s') :
    r = (i, (s.bodies[i]?).getD {}) ∧ s' = s := by
  simp only [Context.currentBody, hc] at h
  obtain ⟨hr, hs⟩ := pure_ok.1 h
  exact ⟨hr.symm, hs.symm⟩

/-- A change of the blocks of a declaration. -/
theorem checks_onBody (hc : c.body = some i) {k : Nat × Body → CheckM Unit}
    (hk : ∀ b s u s', k (i, b) Program.directory s = .ok u s' → ∃ b',
      s' = { s with bodies := s.bodies.set! i b' } ∧ b'.references = b.references ∧
        (w.Local b → w.Local b')) :
    Checks (w.within (some i) R) P (fun _ => True) (c.currentBody >>= k) := by
  intro s u s' hrun
  obtain ⟨_, _, hget, hrun⟩ := bind_ok.1 hrun
  obtain ⟨rfl, rfl⟩ := currentBody_ok hc hget
  obtain ⟨b', rfl, hreferences, hlocal⟩ := hk _ _ _ _ hrun
  refine ⟨.setBody ?_, fun _ hs _ => ⟨⟨hs.1.setBody (hlocal (hs.1.local_get i)) i, ?_⟩, trivial⟩⟩
  · rw [hreferences, State.recorded_eq]
    exact fun _ hq => hq
  · simpa using hs.2

/-- Opening a block keeps the invariant. -/
theorem checks_push (hc : c.body = some i) :
    Checks (w.within (some i) R) P (fun _ => True) c.push := by
  refine checks_onBody hc fun b s u s' hrun => ?_
  obtain rfl := modify_ok.1 hrun
  exact ⟨_, rfl, rfl, fun hb => ⟨by simpa using hb.scopes, hb.result⟩⟩

/-- Closing a block keeps the invariant. -/
theorem checks_pop (hc : c.body = some i) :
    Checks (w.within (some i) R) P (fun _ => True) c.pop := by
  refine checks_onBody hc fun b s u s' hrun => ?_
  simp only at hrun
  match hscopes : b.scopes with
  | inner :: outer :: rest =>
    rw [hscopes] at hrun
    obtain rfl := check_modify_ok.1 hrun
    refine ⟨_, rfl, rfl, fun hb => ⟨fun block hblock => hb.scopes block ?_, hb.result⟩⟩
    rw [hscopes]
    exact List.mem_cons_of_mem inner hblock
  | [_] | [] =>
    rw [hscopes] at hrun
    exact absurd hrun check_throw_ok

/-- Entering a loop keeps the invariant. -/
theorem checks_enterLoop (hc : c.body = some i) :
    Checks (w.within (some i) R) P (fun _ => True) c.enterLoop := by
  refine checks_onBody hc fun b s u s' hrun => ?_
  obtain rfl := modify_ok.1 hrun
  exact ⟨_, rfl, rfl, fun hb => ⟨hb.scopes, hb.result⟩⟩

/-- Leaving a loop keeps the invariant. -/
theorem checks_leaveLoop (hc : c.body = some i) :
    Checks (w.within (some i) R) P (fun _ => True) c.leaveLoop := by
  refine checks_onBody hc fun b s u s' hrun => ?_
  simp only at hrun
  cases hloops : b.loops with
  | zero =>
    rw [hloops] at hrun
    exact absurd hrun check_throw_ok
  | succ n =>
    rw [hloops] at hrun
    obtain rfl := check_modify_ok.1 hrun
    exact ⟨_, rfl, rfl, fun hb => ⟨hb.scopes, hb.result⟩⟩

/-- Asking whether there is a loop around keeps the invariant. -/
theorem checks_inLoop {S : Setting} : Checks S P (fun _ => True) c.inLoop := by
  unfold Context.inLoop
  split
  · exact .pure fun _ => trivial
  · exact .get fun _ => .pure fun _ => trivial

/-- The declared result type is admitted. -/
theorem checks_result {j : Option Nat} : Checks (w.within j R) P
    (fun r => ∀ t ∈ r, w.vocabulary.Admits t) c.result? := by
  unfold Context.result?
  split
  · exact .pure (by simp)
  · refine .get fun s => .pure fun h t ht => ?_
    obtain ⟨b, hb, hresult⟩ := Option.bind_eq_some_iff.1 ht
    exact (h.2.1.bodies b (Array.mem_of_getElem? hb)).result t hresult

/-- A static name is recorded. -/
theorem checks_refer (hc : c.body = some i) (q : String) :
    Checks (w.within (some i) R) P (fun _ => q ≠ "" → q ∈ R) (c.refer q) := by
  intro s u s' hrun
  simp only [Context.refer, hc] at hrun
  split at hrun
  · next hq =>
    obtain ⟨-, rfl⟩ := pure_ok.1 hrun
    exact ⟨.refl s, fun _ hs _ => ⟨hs, fun hne => absurd hq hne⟩⟩
  · rw [check_get_ok] at hrun
    split at hrun
    · next hmem =>
      obtain ⟨-, rfl⟩ := pure_ok.1 hrun
      refine ⟨.refl s, fun _ hs ahead => ⟨hs, fun _ => ahead.2.2 i rfl q ?_⟩⟩
      rw [State.recorded_eq]
      simpa using hmem
    · obtain rfl := modify_ok.1 hrun
      refine ⟨.setBody ?_, fun _ hs ahead => ⟨⟨hs.1.setBody ?_ i, ?_⟩, fun _ => ahead.2.2 i rfl q ?_⟩⟩
      · rw [State.recorded_eq]
        exact fun _ hq => List.mem_cons_of_mem q hq
      · exact ⟨(hs.1.local_get i).scopes, (hs.1.local_get i).result⟩
      · simpa using hs.2
      · have hi := hs.2 i rfl
        simp [State.recorded, hi]

/-- A storage gets the next number. -/
theorem newStorage_ok {name qualified : String} {type : Ty} {kind : StorageClass}
    {location : Option Source.Location} {d : Directory} {s s' : State} {st : Storage}
    (h : Context.newStorage name qualified type kind location d s = .ok st s') :
    st = { id := s.storages, name, qualified, type, kind, location } ∧
      s' = { s with storages := s.storages + 1 } := by
  simp only [Context.newStorage, check_bind_ok, check_state_ok, check_set_ok, check_pure_ok] at h
  obtain ⟨_, _, ⟨rfl, rfl⟩, _, _, rfl, rfl, rfl⟩ := h
  exact ⟨rfl, rfl⟩

/-- A new number for a storage. -/
theorem checks_newStorage {S : Setting} (hS : ∀ s n, S.Inv s → S.Inv { s with storages := n })
    {name qualified : String} {type : Ty} {kind : StorageClass}
    {location : Option Source.Location} : Checks S P (fun st => st.name = name ∧
      st.qualified = qualified ∧ st.type = type ∧ st.kind = kind)
      (Context.newStorage name qualified type kind location) := by
  intro s st s' hrun
  obtain ⟨rfl, rfl⟩ := newStorage_ok hrun
  exact ⟨.of_same rfl rfl rfl fun _ h => h, fun _ hs _ => ⟨hS s _ hs, rfl, rfl, rfl, rfl⟩⟩

/-- The number of storages does not matter. -/
theorem World.inv_storages {j : Option Nat} (s : State) (n : Nat) (hs : (w.within j R).Inv s) :
    (w.within j R).Inv { s with storages := n } :=
  ⟨⟨hs.1.fits, ⟨hs.1.offers.children, hs.1.offers.types⟩, hs.1.values, hs.1.bodies, hs.1.globals,
    hs.1.functions, hs.1.items, hs.1.templates⟩, hs.2⟩

/-- A local variable is declared. -/
theorem checks_declare (hc : c.body = some i) {type : Ty} (htype : P → w.vocabulary.Admits type)
    (name : String) (kind : StorageClass) (location : Option Source.Location) :
    Checks (w.within (some i) R) P (w.Recorded R) (c.declare name type kind location) := by
  intro s st s' hrun
  unfold Context.declare at hrun
  split at hrun
  · obtain ⟨_, _, hthrow, -⟩ := check_bind_ok.1 hrun
    exact absurd hthrow check_throw_ok
  next hkind =>
  have hlocal : kind.isStatic = false := by
    cases kind <;> simp_all [StorageClass.isStatic]
  obtain ⟨r, s₀, hget, hrun⟩ := check_bind_ok.1 hrun
  obtain ⟨hr, hs₀⟩ := currentBody_ok hc hget
  subst r s₀
  obtain ⟨new, s₁, hnew, hrun⟩ := check_bind_ok.1 hrun
  obtain ⟨rfl, hs₁⟩ := newStorage_ok hnew
  have hgrows : s.Grows s₁ := hs₁ ▸ .of_same rfl rfl rfl fun _ h => h
  have hinv (hs : (w.within (some i) R).Inv s) : (w.within (some i) R).Inv s₁ :=
    hs₁ ▸ World.inv_storages s _ hs
  have hbodies : s₁.bodies = s.bodies := hs₁ ▸ rfl
  clear hs₁ hnew
  simp only [← hbodies] at hrun
  cases hscopes : ((s₁.bodies[i]?).getD {}).scopes with
  | nil =>
    rw [hscopes] at hrun
    exact absurd hrun check_throw_ok
  | cons top rest =>
    rw [hscopes] at hrun
    simp only at hrun
    split at hrun
    all_goals
      obtain ⟨_, _, hstep, hlast⟩ := check_bind_ok.1 hrun
      obtain ⟨rfl, rfl⟩ := check_pure_ok.1 hlast
      obtain rfl := check_modify_ok.1 hstep
    · refine ⟨.trans hgrows (.report _ fun _ => rfl), fun _ _ ahead => ?_⟩
      exact absurd (State.doomed_of_error _ rfl) ahead.1
    · refine ⟨.trans hgrows (.setBody ?_), fun hP hs _ =>
        ⟨⟨(hinv hs).1.setBody ?_ i, ?_⟩, ?_⟩⟩
      · rw [State.recorded_eq]
        exact fun _ hq => hq
      · obtain ⟨hold, hresult⟩ := (hinv hs).1.local_get i
        rw [hscopes] at hold
        refine ⟨?_, hresult⟩
        simp only [List.forall_mem_cons] at hold ⊢
        exact ⟨⟨⟨hlocal, htype hP⟩, hold.1⟩, hold.2⟩
      · simpa using (hinv hs).2
      · intro hstatic
        simp [hlocal] at hstatic

/-- The local variables of the declaration under check. -/
theorem World.Sound.local_blocks {s : State} (hs : w.Sound s) {name : String} {st : Storage}
    (h : Context.inBlocks (c.blocks s) name = some st) :
    st.kind.isStatic = false ∧ w.vocabulary.Admits st.type := by
  obtain ⟨block, hblock, hst⟩ := List.exists_of_findSome?_eq_some h
  obtain ⟨before, after, rfl, -⟩ := List.lookup_eq_some_iff.1 hst
  simp only [Context.blocks] at hblock
  cases hbody : c.body.bind fun id => s.bodies[id]? with
  | none => simp [hbody] at hblock
  | some b =>
    obtain ⟨j, -, hj⟩ := Option.bind_eq_some_iff.1 hbody
    have hmem : before ++ (name, st) :: after ∈ b.scopes := by simpa [hbody] using hblock
    exact (hs.bodies b (Array.mem_of_getElem? hj)).scopes _ hmem (name, st) (by simp)

/-- A name stands for a local variable, or for a declaration that is recorded. -/
theorem checks_lookup (hc : c.body = some i) (name : String) (location : Option Source.Location) :
    Checks (w.within (some i) R) P (fun r => ∀ st ∈ r, w.Found R st) (c.lookup name location) := by
  refine .get fun s => ?_
  split
  · next st hst =>
    refine .pure fun hs st' hst' => ?_
    obtain rfl : st = st' := by simpa using hst'
    obtain ⟨hlocal, htype⟩ := hs.2.1.local_blocks hst
    exact ⟨htype, fun hstatic => by simp [hlocal] at hstatic⟩
  · exact .failing
  · refine .read (.get fun s => ?_)
    split
    · exact .failing
    · exact .failing
    · next st hst =>
      have hdeclared (hs : w.Sound s) : w.Declared st := by
        obtain ⟨entry, hentry, leaf, hleaf⟩ := Program.findValue_some hst
        exact hs.values entry hentry _ hleaf
      split
      · refine .bind (checks_refer hc st.qualified) fun _ => .pure fun h st' hst' => ?_
        obtain rfl : st = st' := by simpa using hst'
        have hst := hdeclared h.1.2.1
        exact ⟨hst.type, fun _ => ⟨hst, h.2 hst.qualified⟩⟩
      · next hstatic =>
        exact .pure fun h => absurd (hdeclared h.2.1).static hstatic

/-- The context of an instance is that of its request, but for the chain. -/
theorem checks_instantiate {S : Setting} (name : String) (location : Option Source.Location) :
    Checks S P (fun r => ∀ inner ∈ r, inner.scope.params = c.scope.params)
      (c.instantiate name location) := by
  unfold Context.instantiate
  split
  · exact .failing
  · exact .pure (by simp)

/-- A template that is used without arguments dooms the run. -/
theorem checks_bareTemplate {S : Setting} (scope : Scope) (name : String)
    (location : Option Source.Location) :
    Checks S P (fun _ => False) (postpone (.bareTemplate scope name location)) := by
  intro s a s' hrun
  obtain rfl := modify_ok.1 hrun
  exact ⟨.postpone s _, fun _ _ ahead => absurd (.inr ⟨scope, name, location, by simp⟩) (S.sound ahead)⟩

end Qll.Check
