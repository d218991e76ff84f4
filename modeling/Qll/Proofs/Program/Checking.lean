import Qll.Program.Check
import Qll.Proofs.Check.Bodies
import Qll.Proofs.Program.Liveness

/-!
# Checking the bodies of a program

A body is checked as a declaration of its own, and its references are those recorded while it was
checked. Instances of templates are functions of the program once they were requested. So a state in
which all bodies were checked is sound.
-/

namespace Qll.Program

open Qll.Computation
open Check (State CheckM Context Storage Instances FunctionItem TemplateItem GlobalItem World Checks
  onTypes check_bind_ok check_pure_ok check_get_ok check_state_ok check_set_ok check_modify_ok)
open Source (Location)
open Qll.Types (Ty Scope Vocabulary)
open Qll.Types.Vocabulary (Keeps)

variable {w : World} {i : Nat} {j : Option Nat} {R : Set String} {P : Prop} {c : Context}

/-! ## Declarations under check -/

/-- A declaration is opened. -/
theorem openBody_ok {result : Option Ty} {d : Check.Directory} {s s' : State} {c' : Context}
    (h : c.openBody result d s = .ok c' s') :
    c' = { c with body := some s.bodies.size } ∧
      s' = { s with bodies := s.bodies.push { result } } := by
  simp only [Context.openBody, check_bind_ok, check_state_ok, check_set_ok, check_pure_ok] at h
  obtain ⟨_, _, ⟨rfl, rfl⟩, _, _, rfl, rfl, rfl⟩ := h
  exact ⟨rfl, rfl⟩

/-- The recorded names of a declaration are read. -/
theorem references_ok (hc : c.body = some i) {d : Check.Directory} {s s' : State}
    {references : List String} (h : c.references d s = .ok references s') :
    (∀ q, q ∈ references ↔ q ∈ s.recorded i) ∧ s' = s := by
  simp only [Context.references, hc] at h
  obtain ⟨rfl, rfl⟩ := pure_ok.1 h
  exact ⟨fun q => by rw [Text.mem_inOrder, State.recorded_eq], rfl⟩

/-- A new declaration has no local variables yet. -/
theorem sound_openBody {s : State} (hs : w.Sound s) {result : Option Ty}
    (hresult : ∀ t ∈ result, w.vocabulary.Admits t) :
    w.Sound { s with bodies := s.bodies.push { result } } := by
  refine ⟨hs.fits, ⟨hs.offers.children, hs.offers.types⟩, hs.values, fun b hb => ?_, hs.globals,
    hs.functions, hs.items, hs.templates⟩
  obtain hb | rfl := Array.mem_push.1 hb
  · exact hs.bodies b hb
  · exact ⟨by simp, hresult⟩

/-- A declaration is opened, something is checked in it, and the references are taken. -/
theorem checks_opened {α β : Type} {scope : Scope} {result : Option Ty} {x : Context → CheckM α}
    {k : Context → α → List String → CheckM β} {Q : Set String → α → Prop} {T : β → Prop}
    (hresult : P → ∀ t ∈ result, w.vocabulary.Admits t)
    (hx : ∀ i c R, c.scope = scope → c.body = some i → Checks (w.within (some i) R) P (Q R) (x c))
    (hk : ∀ c a references, c.scope = scope →
      Checks (w.within j R) (P ∧ Q { q | q ∈ references } a) T (k c a references)) :
    Checks (w.within j R) P T (do
      let c ← Context.openBody { scope } result
      let a ← x c
      let references ← c.references
      k c a references) := by
  intro s b s' hrun
  obtain ⟨c, s₁, hopen, hrun⟩ := check_bind_ok.1 hrun
  obtain ⟨a, s₂, hinner, hrun⟩ := check_bind_ok.1 hrun
  obtain ⟨references, s₃, hreferences, hlast⟩ := check_bind_ok.1 hrun
  obtain ⟨hc, hs₁⟩ := openBody_ok hopen
  have hbody : c.body = some s.bodies.size := by rw [hc]
  have hscope : c.scope = scope := by rw [hc]
  obtain ⟨hmem, rfl⟩ := references_ok hbody hreferences
  have hgrows₁ : s.Grows s₁ := hs₁ ▸ .openBody s _
  have hgrows₂ := (hx _ c Set.univ hscope hbody s₁ a s₃ hinner).1
  obtain ⟨hgrows₃, hkeeps₃⟩ := hk c a references hscope s₃ b s' hlast
  refine ⟨hgrows₁.trans (hgrows₂.trans hgrows₃), fun hP hs ahead => ?_⟩
  have ahead₃ := (w.within j R).back hgrows₃ ahead
  obtain ⟨-, hkeeps₂⟩ := hx _ c { q | q ∈ references } hscope hbody s₁ a s₃ hinner
  have hinv₁ : (w.within (some s.bodies.size) { q | q ∈ references }).Inv s₁ := by
    refine ⟨hs₁ ▸ sound_openBody hs.1 (hresult hP), ?_⟩
    simp [hs₁]
  obtain ⟨hinv₂, ha⟩ := hkeeps₂ hP hinv₁ ⟨ahead₃.1, ahead₃.2.1, fun k hk q hq => by
    obtain rfl : s.bodies.size = k := by simpa using hk
    exact (hmem q).2 hq⟩
  refine hkeeps₃ ⟨hP, ha⟩ ⟨hinv₂.1, fun k hk => ?_⟩ ahead
  exact Nat.lt_of_lt_of_le (hs.2 k hk) (hgrows₁.trans hgrows₂).bodies

/-! ## Functions -/

/-- Parameters that are admitted can be declared in a body. -/
theorem checks_declareParams (hc : c.body = some i) : ∀ params : List Check.TypedParam,
    Checks (w.within (some i) R) (∀ p ∈ params, w.vocabulary.Admits p.type) (fun _ => True)
      (declareParams c params)
  | [] => .pure fun _ => trivial
  | p :: rest => by
    refine .seq (.discard (Check.checks_checkValueType (fun h => h p (by simp)) _)) fun _ => ?_
    refine .seq (Check.checks_declare hc (fun h => h p (by simp)) _ _ _).drop fun st => ?_
    refine .seq ((checks_declareParams hc rest).pre fun h q hq => h q (by simp [hq])) fun _ => ?_
    exact .pure fun _ => trivial

/-- A function gets its body. -/
theorem checks_keepFunction (index : Nat) {f : FunctionItem → FunctionItem}
    (hname : ∀ item, (f item).qualified = item.qualified)
    (hf : P → ∀ item, w.SoundFunction item → w.SoundFunction (f item)) :
    Checks (w.within j R) P (fun _ => True)
      (modify fun s => { s with functions := s.functions.modify index f }) := by
  intro s u s' hrun
  obtain rfl := check_modify_ok.1 hrun
  refine ⟨.of_same rfl rfl rfl fun q hq => ?_, fun hP ⟨hs, hj⟩ _ => ⟨⟨?_, hj⟩, trivial⟩⟩
  · simpa only [State.nodes, Check.map_modify hname] using hq
  · refine ⟨hs.fits, ⟨hs.offers.children, hs.offers.types⟩, hs.values, hs.bodies, hs.globals,
      fun item hitem => ?_, hs.items, hs.templates⟩
    obtain hitem | ⟨old, hold, rfl⟩ := Check.mem_modify hitem
    · exact hs.functions item hitem
    · exact hf hP old (hs.functions old hold)

/-- The body of a function is checked. -/
theorem checks_checkFunction {instances : Instances} (hinstances : w.Provides instances)
    (index : Nat) : Checks (w.within j R) P (fun _ => True) (checkFunction instances index) := by
  unfold checkFunction
  refine .get fun s => ?_
  split
  · exact .pure fun _ => trivial
  · next f hf =>
    refine .ite (.pure fun _ => trivial) ?_
    have hsound (h : P ∧ (w.within j R).Inv s) : w.SoundFunction f :=
      h.2.1.functions f (Array.mem_of_getElem? hf)
    have hopened : Checks (w.within j R) (P ∧ (w.within j R).Inv s) (fun _ => True) (do
        let c ← Context.openBody { scope := f.scope } (some f.result)
        let r ← (do
          let storages ← declareParams c f.params
          let body ← Check.checkStmts instances c f.body
          pure (storages, body) : CheckM (List Storage × List Checked.Stmt))
        let references ← c.references
        modify fun s => { s with functions := s.functions.modify index fun f =>
          { f with paramStorages := r.1, checked := some r.2, references } }) := by
      refine checks_opened (Q := fun R r => Checked.StmtsOver (w.Recorded R) r.2) ?_ ?_ ?_
      · exact fun h t ht => Option.some.inj ht ▸ (hsound h).result
      · intro i c R hscope hc
        refine .seq ((checks_declareParams hc f.params).pre fun h => (hsound h).params) fun _ => ?_
        refine .bind ((Check.checks_checkStmts hinstances hc f.body).pre fun h =>
          ⟨hscope ▸ (hsound h).scope, (hsound h).body⟩) fun body => .pure And.right
      · intro c r references _
        refine checks_keepFunction index (fun _ => rfl) fun h item hitem => ?_
        exact { hitem with checked := by simpa using h.2 }
    simpa [bind_assoc] using hopened

/-! ## Instances -/

/-- What the parameters of a template stand for is admitted. -/
theorem checks_bindTypeParams {S : Check.Setting} (location : Option Location) :
    ∀ (names : List String) (types : List Ty), Checks S
      (S.vocabulary.AcceptsAll names ∧ ∀ t ∈ types, S.vocabulary.Admits t)
      (fun bound => ∀ p ∈ bound, S.vocabulary.accepts p.1 ∧ S.vocabulary.Admits p.2)
      (bindTypeParams location names types)
  | name :: names, t :: types => by
    simp only [Vocabulary.acceptsAll_cons, List.forall_mem_cons]
    refine .seq (.types fun h => .newVar (.inr h.1.1) location) fun v => ?_
    refine .seq (.types fun h => .bindVar v h.2.1) fun _ => ?_
    refine .bind ((checks_bindTypeParams location names types).pre fun h =>
      ⟨h.1.2, h.2.2⟩) fun bound => .pure fun h => ?_
    exact List.forall_mem_cons.2 ⟨⟨h.1.1.1, Vocabulary.admits_var⟩, h.2⟩
  | [], _ => .pure (by simp)
  | _ :: _, [] => .pure (by simp)

/-- A value is entered into a namespace. -/
theorem checks_addValue {st : Storage} (hst : P → w.Declared st) (space : Nat) (name : String)
    (location : Option Location) :
    Checks (w.within j R) P (fun _ => True) (addValue space name st location) := by
  have hspace : Checks (w.within j R) P (fun _ => True) (getSpace space) := by
    refine .get fun s => ?_
    split
    · exact .pure fun _ => trivial
    · exact .throw
  refine .seq hspace fun entry => .ite .failing (.seq ?_ fun _ => .pure fun _ => trivial)
  intro s u s' hrun
  obtain rfl := check_modify_ok.1 hrun
  refine ⟨.of_same rfl rfl rfl fun _ h => h, fun hP ⟨hs, hj⟩ _ => ⟨⟨?_, hj⟩, trivial⟩⟩
  refine ⟨hs.fits, ⟨fun n hn => ?_, fun n hn => ?_⟩, fun n hn => ?_, hs.bodies, hs.globals,
    hs.functions, hs.items, hs.templates⟩
  all_goals
    dsimp only at hn
    obtain hn | ⟨old, hold, rfl⟩ := Check.mem_modify hn
  · exact hs.offers.children n hn
  · exact hs.offers.children old hold
  · exact hs.offers.types n hn
  · exact hs.offers.types old hold
  · exact hs.values n hn
  · exact List.forall_mem_cons.2 ⟨hst hP, hs.values old hold⟩

/-- A template function keeps its number when it gets an instance. -/
theorem templateIndex_modify (s : State) (index : Nat) (f : TemplateItem → TemplateItem)
    (functions : Array FunctionItem) (q : String) (hf : ∀ t, (f t).qualified = t.qualified) :
    { s with functions, templates := s.templates.modify index f }.templateIndex? q =
      s.templateIndex? q := by
  have hany (k : Nat) : ((s.templates.modify index f)[k]?).any (·.qualified == q) =
      (s.templates[k]?).any (·.qualified == q) := by
    rw [Array.getElem?_modify]
    split
    · cases s.templates[k]? <;> simp [hf]
    · rfl
  simp only [State.templateIndex?, hany, Array.size_modify]

/-- The program gets a function, which is an instance of a template. -/
theorem checks_pushInstance {f : FunctionItem} (hf : P → w.SoundFunction f) (item : Nat)
    {key : String} (hkey : P → w.vocabulary.Keys key) : Checks (w.within j R) P (fun _ => True) (do
      let s ← get
      let index := s.functions.size
      set { s with
        functions := s.functions.push f,
        templates := s.templates.modify item fun t =>
          { t with instances := (key, index) :: t.instances } }
      return index : CheckM Nat) := by
  intro s a s' hrun
  obtain ⟨_, s₁, hset, hrun⟩ := check_bind_ok.1 (check_get_ok.1 hrun)
  obtain ⟨-, rfl⟩ := check_pure_ok.1 hrun
  obtain rfl := check_set_ok.1 hset
  refine ⟨.of_same rfl rfl rfl fun q hq => ?_, fun hP ⟨hs, hj⟩ _ => ⟨⟨?_, hj⟩, trivial⟩⟩
  · simp only [State.nodes, Array.toList_push, List.map_append, List.mem_append] at hq ⊢
    exact hq.imp_right .inl
  · refine ⟨hs.fits, ⟨hs.offers.children, hs.offers.types⟩, hs.values, hs.bodies, hs.globals,
      fun f' hf' => ?_, fun t ht => ?_, fun q hq => ?_⟩
    · obtain hf' | rfl := Array.mem_push.1 hf'
      · exact hs.functions f' hf'
      · exact hf hP
    · dsimp only at ht
      obtain ht | ⟨old, hold, rfl⟩ := Check.mem_modify ht
      · exact hs.items t ht
      · obtain ⟨hqualified, hparams, htemplate, hbody, hinstances⟩ := hs.items old hold
        exact ⟨hqualified, hparams, htemplate, hbody, List.forall_mem_cons.2 ⟨hkey hP, hinstances⟩⟩
    · refine (congrArg Option.isSome (templateIndex_modify s item _ _ q ?_)).trans (hs.templates q hq)
      exact fun _ => rfl

/-- The function of an instance. -/
theorem checks_addInstance {t : TemplateItem} {key : String} {params : List Ty} {result : Ty}
    {arguments : List Ty} (ht : P → w.SoundTemplate t)
    (hkey : P → w.vocabulary.Keys key)
    (hparams : P → ∀ p ∈ params, w.vocabulary.Admits p) (hresult : P → w.vocabulary.Admits result)
    (harguments : P → ∀ a ∈ arguments, w.vocabulary.Admits a) (item : Nat) (scope : Scope) :
    Checks (w.within j R) P (fun _ => True)
      (addInstance item t key params result arguments scope) := by
  -- The function is among the declarations in the end, so its storage may be offered before.
  refine .hindsight (F := t.qualified ++ key ∈ w.nodes) ?_ fun s a s' hrun ahead => ?_
  · refine .bind ((checks_bindTypeParams t.location t.typeParams arguments).pre fun h =>
      ⟨(ht h.1).typeParams, harguments h.1⟩) fun bound => ?_
    refine .bind (Check.checks_newStorage World.inv_storages) fun storage => ?_
    have hpairs (h : P) : ∀ p ∈ (t.params.zip params).map fun p => { p.1 with type := p.2 },
        w.vocabulary.Admits p.type := by
      intro p hp
      obtain ⟨⟨old, type⟩, hmem, rfl⟩ := List.mem_map.1 hp
      exact hparams h type (List.of_mem_zip hmem).2
    have hsignature (h : P) : w.vocabulary.Admits (.function
        (((t.params.zip params).map fun p => { p.1 with type := p.2 }).map (·.type)) result
          t.location) := by
      refine Vocabulary.admits_function.2 ⟨fun a ha => ?_, hresult h⟩
      obtain ⟨p, hp, rfl⟩ := List.mem_map.1 ha
      exact hpairs h p hp
    have hname (h : P) : t.qualified ++ key ≠ "" ∧ w.vocabulary.Names (t.qualified ++ key) := by
      obtain ⟨texts, htexts, rfl⟩ := hkey h
      refine ⟨fun hempty => ?_, .inr ⟨t.qualified, texts, (ht h).qualified, htexts, rfl⟩⟩
      have := congrArg String.toList hempty
      simp [Types.Store.bracket] at this
    refine .seq (.discard (checks_addValue (fun h => ?_) _ _ _)) fun _ => ?_
    · obtain ⟨⟨⟨hP, hnode⟩, -⟩, -, hq, htype, hkind⟩ := h
      exact ⟨by rw [hkind]; rfl, hq ▸ (hname hP).1, htype ▸ hsignature hP, .inl (hq ▸ hnode)⟩
    · refine checks_pushInstance (fun h => ?_) item fun h => hkey h.1.1.1
      obtain ⟨⟨⟨hP, -⟩, hbound⟩, -, hq, htype, hkind⟩ := h
      exact ⟨⟨hkind, hq⟩, htype ▸ hsignature hP, hname hP, hpairs hP, hresult hP,
        fun p hp => hbound p (List.mem_reverse.1 hp), (ht hP).body, by simp⟩
  · obtain ⟨bound, s₁, -, hrun⟩ := check_bind_ok.1 hrun
    obtain ⟨storage, s₂, -, hrun⟩ := check_bind_ok.1 hrun
    obtain ⟨_, s₃, -, hrun⟩ := check_bind_ok.1 hrun
    obtain ⟨_, s₄, hset, hrun⟩ := check_bind_ok.1 (check_get_ok.1 hrun)
    obtain ⟨-, rfl⟩ := check_pure_ok.1 hrun
    obtain rfl := check_set_ok.1 hset
    refine ahead.2.1 _ ?_
    simp [State.nodes]

/-- The storage of a function of the program. -/
theorem provided_storage {s : State} (hs : (w.within j R).Inv s) (ahead : (w.within j R).Ahead s)
    {f : FunctionItem} (hf : f ∈ s.functions) : w.Provided f.storage := by
  have hsound := hs.1.functions f hf
  have hname := hsound.storage.2
  refine ⟨hsound.type, hname ▸ hsound.qualified.1, hname ▸ ahead.2.1 f.qualified ?_⟩
  simp only [State.nodes, List.mem_append, List.mem_map, Array.mem_toList_iff]
  exact .inr ⟨f, hf, rfl⟩

/-- An instance is a function of the program once it was requested. -/
theorem provides_requestInstance {deeper : Instances} (hdeeper : w.Provides deeper) :
    w.Provides (requestInstance deeper) := by
  intro i R c item arguments location
  refine .look fun s => ?_
  split
  · exact .pure (by simp)
  · next t ht =>
    have htemplate {Q T : Prop} (h : Q ∧ (w.within (some i) R).Inv s ∧ T) : w.SoundTemplate t :=
      h.2.1.1.items t (Array.mem_of_getElem? ht)
    refine .bind (.types fun h => .read fun _ key hfits hkey => hfits.mangled_key h.1 hkey) fun key => ?_
    split
    · next f hf =>
      refine .pure fun h st hst => ?_
      obtain ⟨index, -, hindex⟩ := Option.bind_eq_some_iff.1 hf
      obtain rfl : f.storage = st := by simpa using hst
      exact provided_storage h.1.2.1 h.1.2.2 (Array.mem_of_getElem? hindex)
    · refine .bind (Check.checks_instantiate _ location) fun inner => ?_
      cases inner with
      | none => exact .pure (by simp)
      | some inner =>
        refine .bind (.types fun h => .instantiate (htemplate h.1.1).template h.1.1.1) fun r => ?_
        split
        · next params result l =>
          have hshape {Q : Prop} (h : Q ∧ w.vocabulary.Admits (.function params result l)) :=
            Vocabulary.admits_function.1 h.2
          refine .seq (checks_addInstance (fun h => htemplate h.1.1.1) (fun h => h.1.1.2)
            (fun h => (hshape h).1) (fun h => (hshape h).2) (fun h => h.1.1.1.1) item inner.scope)
            fun index => ?_
          refine .seq (checks_checkFunction hdeeper index) fun _ => .look fun s' => ?_
          refine .pure fun h st hst => ?_
          obtain ⟨f, hf, rfl⟩ := Option.map_eq_some_iff.1 hst
          exact provided_storage h.2.1 h.2.2 (Array.mem_of_getElem? hf)
        · exact .pure (by simp)

/-- Requests for instances provide what bodies ask for, however deep they may be nested. -/
theorem provides_instancesWithin (n : Nat) : w.Provides (instancesWithin n) := by
  induction n with
  | zero => exact fun _ _ _ _ _ _ => .throw
  | succ n ih => exact provides_requestInstance ih

/-- The requests of a program provide what bodies ask for. -/
theorem provides_instances : w.Provides instances := provides_instancesWithin _

/-! ## Globals -/

/-- A global gets its initial value. -/
theorem checks_keepGlobal (index : Nat) {e : Checked.Expr} {references : List String}
    (he : P → e.Over (w.Recorded { q | q ∈ references })) :
    Checks (w.within j R) P (fun _ => True) (modify fun s => { s with
      globals := s.globals.modify index fun g => { g with checked := some e, references } }) := by
  intro s u s' hrun
  obtain rfl := check_modify_ok.1 hrun
  refine ⟨.of_same rfl rfl rfl fun q hq => ?_, fun hP ⟨hs, hj⟩ _ => ⟨⟨?_, hj⟩, trivial⟩⟩
  · have hnames : (s.globals.modify index fun g => { g with checked := some e, references }).toList.map
        GlobalItem.qualified = s.globals.toList.map GlobalItem.qualified :=
      Check.map_modify fun _ => rfl
    simpa only [State.nodes, hnames] using hq
  · refine ⟨hs.fits, ⟨hs.offers.children, hs.offers.types⟩, hs.values, hs.bodies,
      fun g hg => ?_, hs.functions, hs.items, hs.templates⟩
    dsimp only at hg
    obtain hg | ⟨old, hold, rfl⟩ := Check.mem_modify hg
    · exact hs.globals g hg
    · obtain ⟨hstorage, hqualified, htype, hinit, -⟩ := hs.globals old hold
      exact ⟨hstorage, hqualified, htype, hinit, by simpa using he hP⟩

/-- The initial value of a global is checked. -/
theorem checks_checkGlobal (index : Nat) :
    Checks (w.within j R) P (fun _ => True) (checkGlobal instances index) := by
  unfold checkGlobal
  refine .get fun s => ?_
  split
  · exact .pure fun _ => trivial
  next g hg =>
  split
  · exact .pure fun _ => trivial
  next e he =>
  have hsound {Q : Prop} (h : Q ∧ (w.within j R).Inv s) : w.SoundGlobal g :=
    h.2.1.globals g (Array.mem_of_getElem? hg)
  refine checks_opened (Q := fun R r => w.Yields R r) (by simp) ?_ ?_
  · intro i c R hscope hc
    refine (Check.checks_checkExpr provides_instances hc e g.type).pre fun h => ⟨⟨?_, ?_⟩, (hsound h).type⟩
    · rw [hscope]
      exact fun p hp => absurd hp (by simp [scopeOf])
    · have := (hsound h).init
      rwa [he] at this
  · intro c r references _
    refine .seq (checks_keepGlobal index fun h => h.2.1) fun _ => ?_
    split
    · refine .get fun s => .ite (.pure fun _ => trivial) ?_
      refine .seq (Check.checks_checkValueType (fun h => h.1.2.2) _) fun usable => ?_
      refine .types fun h => .bindVar _ ?_
      split
      · exact h.1.2.2
      · exact Vocabulary.admits_error
    · exact .pure fun _ => trivial
    · next t _ ht =>
      have htype (h : P ∧ (w.within j R).Inv s) : w.vocabulary.Admits t :=
        (hsound h).type t ht
      refine .seq (.types fun h => .isConvertible h.2.2 (htype h.1)) fun _ => .ite ?_ ?_
      · refine .bind (Check.checks_coerce (fun h => h.2) fun h => htype h.1) fun r' => ?_
        exact checks_keepGlobal index fun h => h.2.1
      · exact .seq (.textOf _) fun _ => .seq (.textOf _) fun _ => .noted

/-! ## All bodies -/

/-- A check is put off. -/
theorem checks_postpone (p : Check.Postponed) :
    Checks (w.within j R) P (fun _ => True) (Check.postpone p) := by
  intro s u s' hrun
  obtain rfl := check_modify_ok.1 hrun
  refine ⟨.postpone s p, fun _ ⟨hs, hj⟩ _ => ⟨⟨?_, hj⟩, trivial⟩⟩
  exact ⟨hs.fits, ⟨hs.offers.children, hs.offers.types⟩, hs.values, hs.bodies, hs.globals,
    hs.functions, hs.items, hs.templates⟩

/-- Checking all initial values and bodies keeps a state sound. -/
theorem checks_typecheck : Checks (w.within j R) P (fun _ => True) typecheck := by
  refine .get fun s => .seq (.forM fun k _ => checks_checkGlobal k) fun _ => ?_
  refine .get fun s' => .seq (.forM fun k _ => checks_checkFunction provides_instances k) fun _ => ?_
  exact .get fun s'' => .forM fun k _ => checks_postpone _

end Qll.Program
