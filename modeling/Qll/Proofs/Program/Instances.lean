import Qll.Proofs.Check.Requests
import Qll.Proofs.Program.Entering

/-!
# Instances of template functions

A template lists its instances by the keys of their arguments. The functions beyond the declared ones
are exactly the instances that are listed, each of them once. A request for a key that is listed is
answered from the list and does nothing else; a request for a new key adds one function to the program
and checks its body, unless ten instances are under way already.
-/

namespace Qll.Check

open Qll.Types (Ty)

/-! ## Tables of instances -/

/-- A function whose body may have been checked in the meantime. -/
def FunctionItem.Same (f f' : FunctionItem) : Prop :=
  f' = { f with references := f'.references, paramStorages := f'.paramStorages, checked := f'.checked }

/-- A template that may have more instances. -/
def TemplateItem.Same (t t' : TemplateItem) : Prop := t' = { t with instances := t'.instances }

/-- A function may be checked in either of two stretches. -/
theorem FunctionItem.Same.trans {f f₁ f' : FunctionItem} (h : f.Same f₁) (h' : f₁.Same f') : f.Same f' := by
  unfold FunctionItem.Same at h h' ⊢
  rw [h', h]

/-- A template may get instances in both of two stretches. -/
theorem TemplateItem.Same.trans {t t₁ t' : TemplateItem} (h : t.Same t₁) (h' : t₁.Same t') : t.Same t' := by
  unfold TemplateItem.Same at h h' ⊢
  rw [h', h]

namespace State

/-- The number of the function that a template lists for a key. -/
def instanceIndex? (s : State) (item : Nat) (key : String) : Option Nat :=
  (s.templates[item]?).bind (·.instances.lookup key)

/-- The function that a template lists for a key. -/
def instance? (s : State) (item : Nat) (key : String) : Option FunctionItem :=
  (s.instanceIndex? item key).bind (s.functions[·]?)

/-- The numbers of all instances, template by template. -/
def listed (s : State) : List Nat := s.templates.toList.flatMap fun t => t.instances.map Prod.snd

/-- Whether the body of a function was checked. -/
def done (s : State) (i : Nat) : Bool := (s.functions[i]?).any (·.checked.isSome)

/-- The tables of a program, where the first `base` functions are the declared ones. -/
structure Tabled (base : Nat) (s : State) : Prop where
  declared : base ≤ s.functions.size
  /-- A template lists a key once. -/
  keys : ∀ t ∈ s.templates, (t.instances.map Prod.fst).Nodup
  /-- What is listed is a function that was made of the template. -/
  made : ∀ t ∈ s.templates, ∀ p ∈ t.instances, ∃ f, s.functions[p.2]? = some f ∧
    f.name = t.name ++ p.1 ∧ f.qualified = t.qualified ++ p.1 ∧ f.space = t.space ∧ f.body = t.body
  /-- No function is listed twice. -/
  once : s.listed.Nodup
  /-- The functions that were not declared are those that are listed. -/
  listed : ∀ i, i ∈ s.listed ↔ base ≤ i ∧ i < s.functions.size
  /-- A body is checked for at most ten instances at once. -/
  chains : ∀ f ∈ s.functions, f.scope.chain.length ≤ Types.maxExpansion

/-- Functions and templates stay, and so do instances. -/
structure Extends (s s' : State) : Prop where
  functions : ∀ (i : Nat) (f : FunctionItem), s.functions[i]? = some f →
    ∃ f', s'.functions[i]? = some f' ∧ f.Same f'
  templates : ∀ (i : Nat) (t : TemplateItem), s.templates[i]? = some t →
    ∃ t', s'.templates[i]? = some t' ∧ t.Same t'
  instances : ∀ item key index, s.instanceIndex? item key = some index →
    s'.instanceIndex? item key = some index

/-- What checking bodies comes to: new functions and those of `own` have been checked, and others are
as before. Each function that was checked was opened once, and so were `count` other declarations. -/
structure Progress (count : Nat) (own : Nat → Prop) (s s' : State) : Prop where
  size : s.functions.size ≤ s'.functions.size
  old : ∀ i < s.functions.size, ¬ own i → s'.done i = s.done i
  new : ∀ i < s'.functions.size, own i ∨ s.functions.size ≤ i → s'.done i = true
  bodies : s'.bodies.size + s.functions.size = s.bodies.size + count + s'.functions.size
  inits : s'.globals.map (·.init) = s.globals.map (·.init)

variable {base count count' : Nat} {own own' : Nat → Prop} {s s₁ s' : State}

/-- A state extends itself. -/
theorem Extends.refl (s : State) : s.Extends s :=
  ⟨fun _ f hf => ⟨f, hf, rfl⟩, fun _ t ht => ⟨t, ht, rfl⟩, fun _ _ _ h => h⟩

/-- Extensions of extensions are extensions. -/
theorem Extends.trans (h : s.Extends s₁) (h' : s₁.Extends s') : s.Extends s' where
  functions i f hf := by
    obtain ⟨f₁, hf₁, hsame⟩ := h.functions i f hf
    obtain ⟨f', hf', hsame'⟩ := h'.functions i f₁ hf₁
    exact ⟨f', hf', hsame.trans hsame'⟩
  templates i t ht := by
    obtain ⟨t₁, ht₁, hsame⟩ := h.templates i t ht
    obtain ⟨t', ht', hsame'⟩ := h'.templates i t₁ ht₁
    exact ⟨t', ht', hsame.trans hsame'⟩
  instances item key index hindex := h'.instances item key index (h.instances item key index hindex)

/-- An instance stays, up to its body. -/
theorem Extends.instance? (h : s.Extends s') {item : Nat} {key : String} {f : FunctionItem}
    (hf : s.instance? item key = some f) : ∃ f', s'.instance? item key = some f' ∧ f.Same f' := by
  obtain ⟨index, hindex, hf⟩ := Option.bind_eq_some_iff.1 hf
  obtain ⟨f', hf', hsame⟩ := h.functions index f hf
  exact ⟨f', Option.bind_eq_some_iff.2 ⟨index, h.instances item key index hindex, hf'⟩, hsame⟩

/-- What was checked over two stretches was checked over both. -/
theorem Progress.trans (h : Progress count own s s₁) (h' : Progress count' own' s₁ s') :
    Progress (count + count') (fun i => own i ∨ own' i) s s' where
  size := h.size.trans h'.size
  old i hi hown := by
    rw [h'.old i (hi.trans_le h.size) fun h => hown (.inr h), h.old i hi fun h => hown (.inl h)]
  new i hi hown := by
    by_cases hlast : own' i ∨ s₁.functions.size ≤ i
    · exact h'.new i hi hlast
    · simp only [not_or, Nat.not_le] at hlast
      rw [h'.old i hlast.2 hlast.1]
      exact h.new i hlast.2 (hown.imp_left fun h => h.resolve_right hlast.1)
  bodies := by
    have := h.bodies
    have := h'.bodies
    omega
  inits := h'.inits.trans h.inits

/-- A change that leaves functions and declarations under check. -/
theorem Progress.of_leaves (h : s.Leaves s') : Progress 0 (fun _ => False) s s' where
  size := by rw [h.functions]
  old i _ _ := by rw [done, h.functions, done]
  new i hi hown := by
    rw [h.functions] at hi
    exact absurd (hown.resolve_left id) (by omega)
  bodies := by simp [h.functions, h.bodies]
  inits := h.inits

/-- A change in which templates stay, and functions up to their bodies. -/
theorem Tabled.change (hs : Tabled base s) (htemplates : s'.templates = s.templates)
    (hsize : s'.functions.size = s.functions.size) (hfunctions : ∀ (i : Nat) (f : FunctionItem),
      s.functions[i]? = some f → ∃ f', s'.functions[i]? = some f' ∧ f.Same f') :
    Tabled base s' ∧ s.Extends s' := by
  have hlisted : s'.listed = s.listed := by rw [State.listed, htemplates, State.listed]
  refine ⟨⟨hsize ▸ hs.declared, htemplates ▸ hs.keys, fun t ht p hp => ?_, hlisted ▸ hs.once, ?_, ?_⟩,
    hfunctions, fun i t ht => ⟨t, htemplates ▸ ht, rfl⟩, fun item key index h => ?_⟩
  · obtain ⟨f, hf, hrest⟩ := hs.made t (htemplates ▸ ht) p hp
    obtain ⟨f', hf', hsame⟩ := hfunctions p.2 f hf
    refine ⟨f', hf', ?_⟩
    rw [hsame]
    exact hrest
  · rw [hlisted, hsize]
    exact hs.listed
  · intro f' hf'
    obtain ⟨i, hi, rfl⟩ := Array.mem_iff_getElem.1 hf'
    have hlt : i < s.functions.size := hsize ▸ hi
    obtain ⟨f', hf', hsame⟩ := hfunctions i s.functions[i] (Array.getElem?_eq_getElem hlt)
    rw [Array.getElem?_eq_getElem hi, Option.some.injEq] at hf'
    have hchain := hs.chains _ (Array.getElem_mem hlt)
    rw [hf', hsame]
    exact hchain
  · rw [instanceIndex?, htemplates]
    exact h

/-- The body of a function is kept. -/
theorem Tabled.keep (hs : Tabled base s) {f : FunctionItem → FunctionItem} (hf : ∀ g : FunctionItem, g.Same (f g))
    (index : Nat) : Tabled base { s with functions := s.functions.modify index f } ∧
      s.Extends { s with functions := s.functions.modify index f } := by
  refine hs.change rfl (by simp) fun i g hg => ?_
  rw [Array.getElem?_modify]
  split
  · exact ⟨f g, by rw [hg]; rfl, hf g⟩
  · exact ⟨g, hg, rfl⟩

/-- A function whose body is kept was checked. -/
theorem Progress.keep {f : FunctionItem → FunctionItem} (hf : ∀ g, (f g).checked.isSome) {index : Nat}
    (h : Progress 1 (fun _ => False) s s₁) :
    Progress 1 (· = index) s { s₁ with functions := s₁.functions.modify index f } where
  size := by simpa using h.size
  old i hi hne := by
    rw [← h.old i hi id, State.done, State.done, Array.getElem?_modify, if_neg fun heq => hne heq.symm]
  new i hi hown := by
    rw [Array.size_modify] at hi
    rw [State.done, Array.getElem?_modify]
    split
    · simp [Array.getElem?_eq_getElem hi, hf]
    · next hne => exact h.new i hi (.inr (hown.resolve_left fun heq => hne heq.symm))
  bodies := by simpa using h.bodies
  inits := h.inits

/-- A new function is checked. -/
theorem Progress.of_push (h : Progress 1 (· = s.functions.size) s₁ s') {f : FunctionItem}
    (hfunctions : s₁.functions = s.functions.push f) (hbodies : s₁.bodies.size = s.bodies.size)
    (hinits : s₁.globals.map (·.init) = s.globals.map (·.init)) : Progress 0 (fun _ => False) s s' where
  size := by
    have := h.size
    simp only [hfunctions, Array.size_push] at this
    omega
  old i hi _ := by
    have hlt : i < s₁.functions.size := by
      simp only [hfunctions, Array.size_push]
      omega
    rw [h.old i hlt (by omega), State.done, State.done, hfunctions, Array.getElem?_push, if_neg (by omega)]
  new i hi hown := by
    have hle := hown.resolve_left id
    refine h.new i hi ?_
    simp only [hfunctions, Array.size_push]
    omega
  bodies := by
    have := h.bodies
    simp only [hfunctions, hbodies, Array.size_push] at this
    omega
  inits := h.inits.trans hinits

/-- What a template lists is found. -/
theorem Tabled.found (hs : Tabled base s) {item : Nat} {t : TemplateItem} (ht : s.templates[item]? = some t)
    {key : String} {index : Nat} (h : t.instances.lookup key = some index) :
    ∃ f, s.functions[index]? = some f ∧ f.name = t.name ++ key ∧ f.qualified = t.qualified ++ key ∧
      f.space = t.space ∧ f.body = t.body := by
  obtain ⟨before, after, hsplit, -⟩ := List.lookup_eq_some_iff.1 h
  exact hs.made t (Array.mem_of_getElem? ht) (key, index) (by simp [hsplit])

/-- A template gets an instance. -/
theorem listed_add {item : Nat} {t : TemplateItem} (ht : s.templates[item]? = some t) {p : String × Nat}
    (htemplates : s'.templates = s.templates.modify item fun t => { t with instances := p :: t.instances }) :
    s'.listed.Perm (p.2 :: s.listed) := by
  obtain ⟨hi, rfl⟩ := Array.getElem?_eq_some_iff.1 ht
  have hi : item < s.templates.toList.length := by simpa using hi
  have hsplit : s.templates.toList = s.templates.toList.take item ++ s.templates.toList[item] ::
      s.templates.toList.drop (item + 1) := by
    rw [← List.drop_eq_getElem_cons hi, List.take_append_drop]
  rw [listed, htemplates, Array.toList_modify, List.modify_eq_take_cons_drop hi, listed]
  conv_rhs => rw [hsplit]
  simp only [List.flatMap_append, List.flatMap_cons, List.map_cons, List.cons_append]
  exact List.perm_middle

/-- A new instance is listed, and its function comes last. -/
theorem Tabled.add (hs : Tabled base s) {item : Nat} {t : TemplateItem} (ht : s.templates[item]? = some t)
    {key : String} (hkey : t.instances.lookup key = none) {f : FunctionItem} (hname : f.name = t.name ++ key)
    (hqualified : f.qualified = t.qualified ++ key) (hspace : f.space = t.space) (hbody : f.body = t.body)
    (hchain : f.scope.chain.length ≤ Types.maxExpansion)
    (hfunctions : s'.functions = s.functions.push f)
    (htemplates : s'.templates = s.templates.modify item fun t =>
      { t with instances := (key, s.functions.size) :: t.instances }) :
    Tabled base s' ∧ s.Extends s' ∧ s'.instanceIndex? item key = some s.functions.size := by
  have hold {i : Nat} {g : FunctionItem} (h : s.functions[i]? = some g) : s'.functions[i]? = some g := by
    have hi := (Array.getElem?_eq_some_iff.1 h).1
    rw [hfunctions, Array.getElem?_push, if_neg (by omega), h]
  have hnew : s'.functions[s.functions.size]? = some f := by simp [hfunctions]
  have hsize : s'.functions.size = s.functions.size + 1 := by simp [hfunctions]
  have hitem : s'.templates[item]? = some { t with instances := (key, s.functions.size) :: t.instances } := by
    rw [htemplates, Array.getElem?_modify, if_pos rfl, ht]
    rfl
  have hperm : s'.listed.Perm (s.functions.size :: s.listed) := listed_add ht htemplates
  have hmem {t' : TemplateItem} (h : t' ∈ s'.templates) : t' ∈ s.templates ∨
      t' = { t with instances := (key, s.functions.size) :: t.instances } := by
    rw [htemplates] at h
    refine (mem_modify_at h).imp_right ?_
    rintro ⟨t₁, ht₁, rfl⟩
    rw [ht, Option.some.injEq] at ht₁
    rw [ht₁]
  have hfresh : s.functions.size ∉ s.listed := fun h => absurd ((hs.listed _).1 h).2 (Nat.lt_irrefl _)
  refine ⟨⟨by have := hs.declared; omega, fun t' ht' => ?_, fun t' ht' p hp => ?_, ?_, fun i => ?_, ?_⟩,
    ⟨fun i g hg => ⟨g, hold hg, rfl⟩, fun i g hg => ?_, fun item' key' index h => ?_⟩, ?_⟩
  · obtain ht' | rfl := hmem ht'
    · exact hs.keys t' ht'
    · refine List.nodup_cons.2 ⟨fun h => ?_, hs.keys t (Array.mem_of_getElem? ht)⟩
      obtain ⟨p, hp, rfl⟩ := List.mem_map.1 h
      exact absurd hkey (by simpa using ⟨p.2, hp⟩)
  · obtain ht' | rfl := hmem ht'
    · obtain ⟨g, hg, hrest⟩ := hs.made t' ht' p hp
      exact ⟨g, hold hg, hrest⟩
    · obtain rfl | hp := List.mem_cons.1 hp
      · exact ⟨f, hnew, hname, hqualified, hspace, hbody⟩
      · obtain ⟨g, hg, hrest⟩ := hs.made t (Array.mem_of_getElem? ht) p hp
        exact ⟨g, hold hg, hrest⟩
  · exact hperm.nodup_iff.2 (List.nodup_cons.2 ⟨hfresh, hs.once⟩)
  · rw [hperm.mem_iff, List.mem_cons, hs.listed, hsize]
    have := hs.declared
    omega
  · rw [hfunctions]
    exact forall_push hs.chains hchain
  · rw [htemplates, Array.getElem?_modify]
    split
    · exact ⟨{ g with instances := (key, s.functions.size) :: g.instances }, by rw [hg]; rfl, rfl⟩
    · exact ⟨g, hg, rfl⟩
  · obtain ⟨t', ht', hlookup⟩ := Option.bind_eq_some_iff.1 h
    by_cases hi : item = item'
    · subst hi
      rw [ht, Option.some.injEq] at ht'
      subst ht'
      refine Option.bind_eq_some_iff.2 ⟨_, hitem, ?_⟩
      have hne : key' ≠ key := by
        rintro rfl
        simp [hkey] at hlookup
      simpa [List.lookup_cons, beq_eq_false_iff_ne.2 hne] using hlookup
    · refine Option.bind_eq_some_iff.2 ⟨t', ?_, hlookup⟩
      rw [htemplates, Array.getElem?_modify, if_neg hi, ht']
  · exact Option.bind_eq_some_iff.2 ⟨_, hitem, by simp⟩

end State

/-- The tables of instances are watched. -/
def tables (base : Nat) (final : State) : Watch where
  Inv := State.Tabled base
  Grows := State.Extends
  Even := State.Progress 0 fun _ => False
  final := final
  grows_trans := .trans
  even_trans h h' := by simpa using h.trans h'
  same h hs := by
    obtain ⟨htabled, hextends⟩ := hs.change h.templates (by rw [h.functions]) fun i f hf =>
      ⟨f, h.functions ▸ hf, rfl⟩
    exact ⟨htabled, hextends, .of_leaves h⟩

end Qll.Check

namespace Qll.Program

open Check (State CheckM Context Storage Instances FunctionItem TemplateItem Watch onTypes tables endState
  reportError check_get_run bind_run)
open Check.State (Tabled Extends Progress)
open Check.Watch (Steady TracksFrom Tracks)
open Source (Location Decl)
open Qll.Types (Ty Scope)

variable {base n : Nat} {final s s' : State} {x y : Instances} {c : Context} {item : Nat} {arguments : List Ty}
  {l : Option Location}

/-- The instances under way are enough for `n` more to be cut off. -/
def Deep (n : Nat) (scope : Scope) : Prop := Types.maxExpansion + 2 ≤ scope.chain.length + n

/-- Requests that come to the same wherever they are made, where at most `n` more are nested. -/
def Alike (base : Nat) (final : State) (n : Nat) (x y : Instances) : Prop :=
  ∀ c : Context, c.scope.chain.length ≤ Types.maxExpansion → Deep n c.scope → ∀ item arguments l,
    (tables base final).Tracks directory (x c item arguments l) (y c item arguments l)

/-! ## Bodies -/

/-- Parameters are declared without touching what is watched. -/
theorem steady_declareParams {W : Watch} {d : Check.Directory} : ∀ params : List Check.TypedParam,
    W.Steady d (declareParams c params)
  | [] => .pure _
  | _ :: rest => .bind (.discard (Check.Watch.steady_checkValueType _ _)) fun _ =>
      .bind (Check.Watch.steady_declare _ _ _) fun _ => .bind (steady_declareParams rest) fun _ => .pure _

/-- A declaration is opened, something is checked in it, and the references are taken. -/
theorem tracksFrom_opened (final : State) (scope : Scope) (result : Option Ty) {α β : Type}
    {x y : Context → CheckM α} {k : Context → α → List String → CheckM β} {E : β → State → Prop}
    (hs : Tabled base s)
    (hxy : ∀ c, c.scope = scope → (tables base final).Tracks directory (x c) (y c))
    (hk : ∀ c a references s₁, Progress 1 (fun _ => False) s s₁ → Tabled base s₁ →
      (tables base final).TracksFrom directory s₁ E (k c a references) (k c a references)) :
    (tables base final).TracksFrom directory s E
      (do
        let c ← Context.openBody { scope } result
        let a ← x c
        let references ← c.references
        k c a references)
      (do
        let c ← Context.openBody { scope } result
        let a ← y c
        let references ← c.references
        k c a references) := by
  have hopen : Progress 1 (fun _ => False) s { s with bodies := s.bodies.push { result } } := by
    refine ⟨Nat.le_refl _, fun _ _ _ => rfl, fun i hi hown => ?_, by simp, rfl⟩
    exact absurd (hown.resolve_left id) (Nat.not_le.2 hi)
  obtain ⟨htabled, hextends⟩ : Tabled base { s with bodies := s.bodies.push { result } } ∧
      s.Extends { s with bodies := s.bodies.push { result } } :=
    hs.change rfl rfl fun i f hf => ⟨f, hf, rfl⟩
  refine TracksFrom.bind (E := fun c s₁ => c.scope = scope ∧ Progress 1 (fun _ => False) s s₁)
    (.of_eq rfl rfl ⟨htabled, hextends, fun c s₁ hrun => ?_⟩) fun c s₁ ⟨hc, hprogress⟩ hs₁ => ?_
  · cases hrun
    exact ⟨rfl, hopen⟩
  · refine ((hxy c hc s₁ hs₁).mono fun _ s₂ h => hprogress.trans h).bind fun a s₂ hprogress hs₂ => ?_
    refine ((Check.Watch.steady_references s₂ hs₂).mono fun _ s₃ h => hprogress.trans h).bind
      fun references s₃ hprogress hs₃ => ?_
    exact hk c a references s₃ (by simpa using hprogress) hs₃

/-- The body of a function is checked. -/
theorem tracksFrom_checkFunction (hxy : Alike base final n x y) (hs : Tabled base s) {index : Nat}
    {f : FunctionItem} (hf : s.functions[index]? = some f) (hchecked : f.checked.isSome = false)
    (hdeep : Deep n f.scope) :
    (tables base final).TracksFrom directory s (fun _ s' => Progress 1 (· = index) s s')
      (checkFunction x index) (checkFunction y index) := by
  refine .get ?_
  simp only [hf, hchecked, Bool.false_eq_true, if_false]
  have hchain := hs.chains _ (Array.mem_of_getElem? hf)
  have hopened := tracksFrom_opened final f.scope (some f.result) hs
    (x := fun c => do
      let storages ← declareParams c f.params
      let body ← Check.checkStmts x c f.body
      pure (storages, body))
    (y := fun c => do
      let storages ← declareParams c f.params
      let body ← Check.checkStmts y c f.body
      pure (storages, body))
    (E := fun _ s' => Progress 1 (· = index) s s')
    (k := fun _ r references => modify fun s => { s with functions := s.functions.modify index fun f =>
      { f with paramStorages := r.1, checked := some r.2, references } })
    (fun c hc => .bind (steady_declareParams _) fun _ =>
      .bind (Check.Watch.tracks_checkStmts (hxy c (hc ▸ hchain) (hc ▸ hdeep)) _) fun _ => .pure _)
    fun c r references s₁ hprogress hs₁ => by
      obtain ⟨htabled, hextends⟩ := hs₁.keep (f := fun f =>
        { f with paramStorages := r.1, checked := some r.2, references }) (fun _ => rfl) index
      refine .of_eq rfl rfl ⟨htabled, hextends, fun u s' hrun => ?_⟩
      cases hrun
      exact .keep (fun _ => rfl) hprogress
  simpa only [bind_assoc, pure_bind] using hopened

/-! ## New instances -/

/-- Type parameters are bound without touching what is watched. -/
theorem steady_bindTypeParams {W : Watch} {d : Check.Directory} {location : Option Location} :
    ∀ (names : List String) (types : List Ty), W.Steady d (bindTypeParams location names types)
  | _ :: names, _ :: types => .bind (.types _) fun _ => .bind (.types _) fun _ =>
      .bind (steady_bindTypeParams names types) fun _ => .pure _
  | [], _ => .pure _
  | _ :: _, [] => .pure _

/-- How a namespace is looked at. -/
theorem getSpace_run {d : Check.Directory} (space : Nat) : getSpace space d s =
    match s.spaces[space]? with
    | some n => .ok n s
    | none => .error Fault.noProgram s := by
  change (match s.spaces[space]? with
    | some n => (pure n : CheckM Check.Space)
    | none => throw Fault.noProgram) d s = _
  cases s.spaces[space]? <;> rfl

/-- A value comes into a table under a name that is free. -/
theorem steady_addValue {W : Watch} {location : Option Location} (space : Nat) (name : String)
    (st : Storage) : W.Steady directory (addValue space name st location) := by
  intro s hs
  refine ⟨.same hs ?_, fun _ => rfl⟩
  change s.Leaves (endState ((getSpace space >>= _) directory s))
  cases hn : s.spaces[space]? with
  | none =>
    rw [bind_run, getSpace_run, hn]
    exact .refl s
  | some n =>
    rw [bind_run, getSpace_run, hn]
    dsimp only
    split
    · exact ⟨.of_eq rfl, rfl, rfl, rfl, rfl⟩
    · next hfree =>
      let enter (n : Check.Space) : Check.Space := { n with values := (name, st) :: n.values }
      have hgrows : Check.SpaceGrows n (enter n) :=
        { Check.SpaceGrows.refl n with
          values := Check.lookup_cons_of_some (Option.not_isSome_iff_eq_none.1 hfree) }
      have hstays : Check.SpacesStay s { s with spaces := s.spaces.modify space enter } :=
        .of_modify hn hgrows (fun _ => rfl) rfl
      exact ⟨hstays, rfl, rfl, rfl, rfl⟩

/-- A function of the program that is a new instance, and not checked yet. -/
structure Added (item : Nat) (t : TemplateItem) (key : String) (scope : Scope) (s : State) (index : Nat)
    (s' : State) : Prop where
  number : index = s.functions.size
  listed : s'.instanceIndex? item key = some index
  function : ∃ f, s'.functions = s.functions.push f ∧ f.qualified = t.qualified ++ key ∧
    f.checked = none ∧ f.scope.chain = scope.chain
  bodies : s'.bodies.size = s.bodies.size
  inits : s'.globals.map (·.init) = s.globals.map (·.init)

/-- A new instance is put into the tables, which stay in order. -/
theorem tracksFrom_addInstance (hs : Tabled base s) {t : TemplateItem} (ht : s.templates[item]? = some t)
    {key : String} (hkey : t.instances.lookup key = none) {scope : Scope}
    (hchain : scope.chain.length ≤ Types.maxExpansion) (params : List Ty) (result : Ty) :
    (tables base final).TracksFrom directory s (Added item t key scope s)
      (addInstance item t key params result arguments scope)
      (addInstance item t key params result arguments scope) := by
  refine (TracksFrom.of_steady (fun W => steady_bindTypeParams _ _) hs).bind fun bound s₁ h₁ hs₁ => ?_
  refine ((TracksFrom.of_steady (fun W => Check.Watch.steady_newStorage _ _ _ _) hs₁).mono fun _ _ h =>
    h₁.trans h).bind fun st s₂ h₂ hs₂ => ?_
  refine ((TracksFrom.of_steady (fun W => .discard (steady_addValue _ _ _)) hs₂).mono fun _ _ h =>
    h₂.trans h).bind fun _ s₃ h₃ hs₃ => .get ?_
  have ht₃ : s₃.templates[item]? = some t := h₃.templates ▸ ht
  let f : FunctionItem :=
    { name := t.name ++ key, qualified := t.qualified ++ key, space := t.space
      params := (t.params.zip params).map fun p => { p.1 with type := p.2 }
      result, body := t.body, exported := false, interrupt := false, location := t.location, storage := st
      scope := { space := some t.space, params := bound.reverse, chain := scope.chain } }
  let added : State := { s₃ with
    functions := s₃.functions.push f
    templates := s₃.templates.modify item fun t =>
      { t with instances := (key, s₃.functions.size) :: t.instances } }
  obtain ⟨htabled, hextends, hlisted⟩ : Tabled base added ∧ s₃.Extends added ∧
      added.instanceIndex? item key = some s₃.functions.size :=
    Tabled.add (f := f) hs₃ ht₃ hkey rfl rfl rfl rfl hchain rfl rfl
  refine .of_eq rfl rfl ⟨htabled, hextends, fun index s' hrun => ?_⟩
  cases hrun
  exact ⟨by rw [h₃.functions], hlisted, ⟨f, by rw [h₃.functions], rfl, rfl, rfl⟩, h₃.bodies,
    h₃.inits⟩

/-- What a request for a new instance leaves, when it is answered and when it is not. -/
def Answered (item : Nat) (t : TemplateItem) (key : String) (s : State) (r : Option Storage) (s' : State) : Prop :=
  match r with
  | none => s.Leaves s'
  | some st => s'.instanceIndex? item key = some s.functions.size ∧ ∃ f,
      s'.functions[s.functions.size]? = some f ∧ f.storage = st ∧ f.qualified = t.qualified ++ key ∧
        f.checked.isSome

/-- A new instance is made and checked. -/
theorem tracksFrom_newInstance (hxy : Alike base final n x y) (hs : Tabled base s) {t : TemplateItem}
    (ht : s.templates[item]? = some t) {key : String} (hkey : t.instances.lookup key = none)
    (arguments : List Ty) (scope : Scope) (hchain : scope.chain.length ≤ Types.maxExpansion) (hdeep : Deep n scope) :
    (tables base final).TracksFrom directory s
      (fun r s' => Progress 0 (fun _ => False) s s' ∧ Answered item t key s r s')
      (do
        match ← onTypes (Types.instantiate t.template arguments) with
        | (.function params result _, true) =>
          let index ← addInstance item t key params result arguments scope
          checkFunction x index
          return ((← get).functions[index]?).map (·.storage)
        | _ => return none)
      (do
        match ← onTypes (Types.instantiate t.template arguments) with
        | (.function params result _, true) =>
          let index ← addInstance item t key params result arguments scope
          checkFunction y index
          return ((← get).functions[index]?).map (·.storage)
        | _ => return none) := by
  refine (TracksFrom.of_steady (fun W => .types _) hs).bind fun made s₁ h₁ hs₁ => ?_
  split
  · next params result l =>
    refine (tracksFrom_addInstance hs₁ (h₁.templates ▸ ht) hkey hchain params result).bind
      fun index s₂ hadded hs₂ => ?_
    obtain ⟨f, hf, hqualified, hchecked, hscope⟩ := hadded.function
    obtain rfl : index = s.functions.size := hadded.number.trans (by rw [h₁.functions])
    rw [h₁.functions] at hf
    have hnew : s₂.functions[s.functions.size]? = some f := by simp [hf]
    have hdeep' : Deep n f.scope := by rwa [Deep, hscope]
    refine (tracksFrom_checkFunction hxy hs₂ hnew (by rw [hchecked]; rfl) hdeep').grows.bind
      fun _ s₃ ⟨hprogress, hextends⟩ hs₃ => .get ?_
    have hbodies : s₂.bodies.size = s.bodies.size := hadded.bodies.trans h₁.bodies
    have hall := hprogress.of_push hf hbodies (hadded.inits.trans h₁.inits)
    obtain ⟨f', hf', hsame⟩ := hextends.functions _ f hnew
    have hchecked' : f'.checked.isSome := by
      have hlt := (Array.getElem?_eq_some_iff.1 hf').1
      simpa [State.done, hf'] using hprogress.new _ hlt (.inl rfl)
    refine .of_eq rfl rfl ⟨hs₃, .refl s₃, fun r s' hrun => ?_⟩
    rw [hf'] at hrun
    cases hrun
    refine ⟨hall, hextends.instances item key _ hadded.listed, f', hf', rfl, ?_, hchecked'⟩
    rw [hsame]
    exact hqualified
  · refine .of_eq rfl rfl ⟨hs₁, .refl s₁, fun r s' hrun => ?_⟩
    cases hrun
    exact ⟨.of_leaves h₁, h₁⟩

/-! ## Requests -/

/-- The key of a request is read. -/
theorem readKey_run : onTypes (Types.read (·.key arguments)) directory s =
    match s.types.key arguments with
    | .ok key => .ok key s
    | .error e => .error e s := by
  cases hkey : s.types.key arguments with
  | ok key => simp only [onTypes, (Types.read_ok (f := (·.key arguments))).2 ⟨hkey, rfl⟩]
  | error e => simp only [onTypes, Types.read_error (f := (·.key arguments)) hkey]

/-- A request for a key that is listed is answered from the list. -/
theorem request_listed {key : String} (hkey : s.types.key arguments = .ok key) {f : FunctionItem}
    (hf : s.instance? item key = some f) :
    requestInstance x c item arguments l directory s = .ok (some f.storage) s := by
  obtain ⟨index, hindex, hf⟩ := Option.bind_eq_some_iff.1 hf
  obtain ⟨t, ht, hlookup⟩ := Option.bind_eq_some_iff.1 hindex
  unfold requestInstance
  rw [check_get_run]
  simp only [ht]
  rw [bind_run, readKey_run, hkey]
  simp only [hlookup, Option.bind_some, hf]
  rfl

/-- A request for a new key where the chain is full is reported, and makes nothing. -/
theorem request_deep {t : TemplateItem} (ht : s.templates[item]? = some t) {key : String}
    (hkey : s.types.key arguments = .ok key) (hnew : t.instances.lookup key = none)
    (hdeep : Types.maxExpansion ≤ c.scope.chain.length) : ∃ report : Diagnostic,
      report.severity = .error ∧ report.code = .depthExceeded ∧ ∀ z : Instances,
      requestInstance z c item arguments l directory s =
        .ok none { s with reports := s.reports.push report } := by
  let message := "template instantiation depth exceeds " ++ Nat.repr Types.maxExpansion ++
    " while instantiating " ++ (t.qualified ++ key)
  let report : Diagnostic :=
    { severity := .error, code := .depthExceeded, location := l, message
      notes := Check.notesOf c.scope.chain }
  refine ⟨report, rfl, rfl, fun z => ?_⟩
  unfold requestInstance
  rw [check_get_run]
  simp only [ht]
  rw [bind_run, readKey_run, hkey]
  simp only [hnew, Option.bind_none, Context.instantiate, if_pos hdeep]
  rfl

/-- A request for a new key where the chain is not full goes on with it. -/
theorem request_new {t : TemplateItem} (ht : s.templates[item]? = some t) {key : String}
    (hkey : s.types.key arguments = .ok key) (hnew : t.instances.lookup key = none)
    (hdeep : ¬ Types.maxExpansion ≤ c.scope.chain.length) :
    requestInstance x c item arguments l directory s =
      (do
        match ← onTypes (Types.instantiate t.template arguments) with
        | (.function params result _, true) =>
          let index ← addInstance item t key params result arguments
            { c.scope with chain := { name := t.qualified ++ key, location := l } :: c.scope.chain }
          checkFunction x index
          return ((← get).functions[index]?).map (·.storage)
        | _ => return none : CheckM (Option Storage)) directory s := by
  unfold requestInstance
  rw [check_get_run]
  simp only [ht]
  rw [bind_run, readKey_run, hkey]
  simp only [hnew, Option.bind_none, Context.instantiate, if_neg hdeep]
  rfl

/-- How a request should go, when it is made in a context and a state and comes to a result, and checking
ends in the state `final`. -/
structure Fine (final : State) (c : Context) (item : Nat) (arguments : List Ty) (s : State)
    (r : EStateM.Result Fault State (Option Storage)) : Prop where
  /-- No more than ten instances are under way. -/
  frames : c.scope.chain.length ≤ Types.maxExpansion
  /-- A key that is listed is answered from the list, and nothing happens. -/
  known : ∀ key f, s.types.key arguments = .ok key → s.instance? item key = some f →
    r = .ok (some f.storage) s
  /-- For a new key there is an error and no instance if ten instances are under way. -/
  deep : ∀ t key, s.templates[item]? = some t → s.types.key arguments = .ok key →
    s.instance? item key = none → c.scope.chain.length = Types.maxExpansion → ∃ report : Diagnostic,
      report.severity = .error ∧ report.code = .depthExceeded ∧
      r = .ok none { s with reports := s.reports.push report }
  /-- A new key that is answered gets the next function of the program, and its body was checked. -/
  new : ∀ t key r' s', s.templates[item]? = some t → s.types.key arguments = .ok key →
    s.instance? item key = none → r = .ok r' s' → Answered item t key s r' s'
  /-- As many bodies are opened as functions are added. -/
  opened : ∀ r' s', r = .ok r' s' →
    s'.bodies.size + s.functions.size = s.bodies.size + s'.functions.size
  /-- In the end the key stands for the function whose storage was the answer. -/
  shared : ∀ t key st s', s.templates[item]? = some t → s.types.key arguments = .ok key →
    r = .ok (some st) s' → ∃ f, final.instance? item key = some f ∧ f.storage = st ∧
      f.qualified = t.qualified ++ key

/-- Of a function that is listed under a key the template does not list another one. -/
theorem lookup_of_instance_none (hs : Tabled base s) {t : TemplateItem} (ht : s.templates[item]? = some t)
    {key : String} (h : s.instance? item key = none) : t.instances.lookup key = none := by
  cases hlookup : t.instances.lookup key with
  | none => rfl
  | some index =>
    obtain ⟨f, hf, -⟩ := hs.found ht hlookup
    simp [State.instance?, State.instanceIndex?, ht, hlookup, hf] at h

/-- What is listed stays listed, with its storage and its name. -/
theorem shared_of_extends (h : s.Extends final) {key : String} {f : FunctionItem}
    (hf : s.instance? item key = some f) :
    ∃ f', final.instance? item key = some f' ∧ f'.storage = f.storage ∧ f'.qualified = f.qualified := by
  obtain ⟨f', hf', hsame⟩ := h.instance? hf
  exact ⟨f', hf', by rw [hsame], by rw [hsame]⟩

/-- A function that a template lists has the name of the template and the key. -/
theorem qualified_of_instance? (hs : Tabled base s) {t : TemplateItem} (ht : s.templates[item]? = some t)
    {key : String} {f : FunctionItem} (hf : s.instance? item key = some f) :
    f.qualified = t.qualified ++ key := by
  obtain ⟨index, hindex, hf⟩ := Option.bind_eq_some_iff.1 hf
  obtain ⟨t', ht', hlookup⟩ := Option.bind_eq_some_iff.1 hindex
  rw [ht, Option.some.injEq] at ht'
  subst ht'
  obtain ⟨g, hg, -, hqualified, -⟩ := hs.found ht hlookup
  rw [hf, Option.some.injEq] at hg
  rw [hg, hqualified]

/-- What is watched of a request that is answered in two ways. -/
abbrev Requested (base : Nat) (final : State) (x y : Instances) (c : Context) (item : Nat) (arguments : List Ty)
    (l : Option Location) (s : State) : Prop :=
  (tables base final).TracksFrom directory s (fun _ s' => Progress 0 (fun _ => False) s s')
    (requestInstance x c item arguments l) (requestInstance y c item arguments l)

/-- As many bodies are opened as functions are added. -/
theorem Requested.opened (h : Requested base final x y c item arguments l s) {r : Option Storage}
    (hr : requestInstance x c item arguments l directory s = .ok r s') :
    s'.bodies.size + s.functions.size = s.bodies.size + s'.functions.size := by
  have := (h.1.2.2 r s' hr).bodies
  omega

/-- A request that leaves the tables. -/
theorem Requested.leaving {r : EStateM.Result Fault State (Option Storage)} (hs : Tabled base s)
    (hrun : ∀ z, requestInstance z c item arguments l directory s = r) (hleaves : s.Leaves (endState r)) :
    Requested base final x y c item arguments l s :=
  .of_eq (hrun x) (hrun y) (.same hs hleaves)

/-- A request without a template or without a key comes to nothing. -/
theorem request_unknown (h : ∀ t key, s.templates[item]? = some t → s.types.key arguments ≠ .ok key) :
    ∃ r : EStateM.Result Fault State (Option Storage), endState r = s ∧ (∀ st s', r ≠ .ok (some st) s') ∧
      ∀ z, requestInstance z c item arguments l directory s = r := by
  cases ht : s.templates[item]? with
  | none =>
    refine ⟨.ok none s, rfl, nofun, fun z => ?_⟩
    unfold requestInstance
    rw [check_get_run]
    simp only [ht]
    rfl
  | some t =>
    cases hkey : s.types.key arguments with
    | ok key => exact absurd hkey (h t key ht)
    | error e =>
      refine ⟨.error e s, rfl, nofun, fun z => ?_⟩
      unfold requestInstance
      rw [check_get_run]
      simp only [ht]
      rw [bind_run, readKey_run, hkey]

/-- How a request for a key of a template should go is said about this key and this template. -/
theorem Fine.of_key {t : TemplateItem} (ht : s.templates[item]? = some t) {key : String}
    (hkey : s.types.key arguments = .ok key) {r : EStateM.Result Fault State (Option Storage)}
    (frames : c.scope.chain.length ≤ Types.maxExpansion)
    (known : ∀ f, s.instance? item key = some f → r = .ok (some f.storage) s)
    (deep : s.instance? item key = none → c.scope.chain.length = Types.maxExpansion →
      ∃ report : Diagnostic, report.severity = .error ∧ report.code = .depthExceeded ∧
        r = .ok none { s with reports := s.reports.push report })
    (new : ∀ r' s', s.instance? item key = none → r = .ok r' s' → Answered item t key s r' s')
    (opened : ∀ r' s', r = .ok r' s' →
      s'.bodies.size + s.functions.size = s.bodies.size + s'.functions.size)
    (shared : ∀ st s', r = .ok (some st) s' → ∃ f, final.instance? item key = some f ∧ f.storage = st ∧
      f.qualified = t.qualified ++ key) :
    Fine final c item arguments s r := by
  have hkey' {key' : String} (h : s.types.key arguments = .ok key') : key' = key := by
    rw [hkey, Except.ok.injEq] at h
    exact h.symm
  have ht' {t' : TemplateItem} (h : s.templates[item]? = some t') : t' = t := by
    rw [ht, Option.some.injEq] at h
    exact h.symm
  refine ⟨frames, fun key' f h => ?_, fun t' key' h h' => ?_, fun t' key' r' s' h h' => ?_, opened,
    fun t' key' st s' h h' => ?_⟩
  · exact hkey' h ▸ known f
  · exact hkey' h' ▸ deep
  · exact ht' h ▸ hkey' h' ▸ new r' s'
  · exact ht' h ▸ hkey' h' ▸ shared st s'

/-- A request goes well, whatever inner requests come to. -/
theorem requested_fine (hxy : Alike base final n x y) (hs : Tabled base s)
    (hc : c.scope.chain.length ≤ Types.maxExpansion) (hmore : Deep (n + 1) c.scope) :
    Requested base final x y c item arguments l s ∧
    (Extends (endState (requestInstance x c item arguments l directory s)) final →
      Fine final c item arguments s (requestInstance x c item arguments l directory s)) := by
  by_cases hread : ∃ t key, s.templates[item]? = some t ∧ s.types.key arguments = .ok key
  case neg =>
    have hnone {t : TemplateItem} {key : String} (ht : s.templates[item]? = some t) :
        s.types.key arguments ≠ .ok key := fun hkey => hread ⟨t, key, ht, hkey⟩
    obtain ⟨r, hend, hsome, hrun⟩ := request_unknown (c := c) (l := l) fun _ _ ht => hnone ht
    have htracks : Requested base final x y c item arguments l s := .leaving hs hrun (hend ▸ .refl s)
    refine ⟨htracks, fun _ => ⟨hc, fun key f hkey hf => ?_, fun t key ht hkey => absurd hkey (hnone ht),
      fun t key _ _ ht hkey => absurd hkey (hnone ht), fun _ _ => htracks.opened,
      fun t key _ _ ht hkey => absurd hkey (hnone ht)⟩⟩
    obtain ⟨index, hindex, -⟩ := Option.bind_eq_some_iff.1 hf
    obtain ⟨t, ht, -⟩ := Option.bind_eq_some_iff.1 hindex
    exact absurd hkey (hnone ht)
  obtain ⟨t, key, ht, hkey⟩ := hread
  cases hknown : s.instance? item key with
  | some f =>
    have hrun (z : Instances) := request_listed (x := z) (c := c) (l := l) hkey hknown
    have htracks : Requested base final x y c item arguments l s := .leaving hs hrun (.refl s)
    refine ⟨htracks, fun hextends => .of_key ht hkey hc (fun f₁ hf₁ => ?_) (fun h => ?_) (fun _ _ h => ?_)
      (fun _ _ => htracks.opened) fun st s' hr => ?_⟩
    · rw [hknown, Option.some.injEq] at hf₁
      rw [hrun, hf₁]
    · simp [hknown] at h
    · simp [hknown] at h
    · rw [hrun] at hextends hr
      obtain ⟨f', hf', hstorage, hqualified⟩ := shared_of_extends hextends hknown
      cases hr
      exact ⟨f', hf', hstorage, hqualified.trans (qualified_of_instance? hs ht hknown)⟩
  | none =>
    have hnew := lookup_of_instance_none hs ht hknown
    have hunlisted (f : FunctionItem) (r : Prop) (hf : s.instance? item key = some f) : r := by
      simp [hknown] at hf
    by_cases hdeep : Types.maxExpansion ≤ c.scope.chain.length
    · obtain ⟨report, hseverity, hcode, hrun⟩ := request_deep (c := c) (l := l) ht hkey hnew hdeep
      have hleaves : s.Leaves { s with reports := s.reports.push report } := ⟨.of_eq rfl, rfl, rfl, rfl, rfl⟩
      have htracks : Requested base final x y c item arguments l s := .leaving hs hrun hleaves
      refine ⟨htracks, fun _ => .of_key ht hkey hc (fun f => hunlisted f _)
        (fun _ _ => ⟨report, hseverity, hcode, hrun x⟩) (fun r' s' _ hr => ?_) (fun _ _ => htracks.opened)
        fun st s' hr => ?_⟩
      all_goals
        rw [hrun] at hr
        cases hr
      exact hleaves
    · let scope : Scope :=
        { c.scope with chain := { name := t.qualified ++ key, location := l } :: c.scope.chain }
      have hscope : Deep n scope := by
        simpa only [scope, Deep, List.length_cons, Nat.add_right_comm, Nat.add_assoc] using hmore
      have hmade := tracksFrom_newInstance hxy hs ht hnew arguments scope (Nat.not_le.1 hdeep) hscope
      have hrun (z : Instances) := request_new (x := z) (c := c) (l := l) ht hkey hnew hdeep
      simp only [TracksFrom, scope, ← hrun] at hmade
      have hanswer := hmade.1.2.2
      have htracks : Requested base final x y c item arguments l s :=
        ⟨⟨hmade.1.1, hmade.1.2.1, fun r s' hr => (hanswer r s' hr).1⟩, hmade.2⟩
      refine ⟨htracks, fun hextends => .of_key ht hkey hc (fun f => hunlisted f _)
        (fun _ h => absurd h.ge hdeep) (fun r' s' _ hr => (hanswer r' s' hr).2) (fun _ _ => htracks.opened)
        fun st s' hr => ?_⟩
      rw [hr] at hextends
      obtain ⟨hindex, f, hf, rfl, hqualified, -⟩ := (hanswer _ _ hr).2
      obtain ⟨f', hf', hstorage, hqualified'⟩ :=
        shared_of_extends hextends (Option.bind_eq_some_iff.2 ⟨_, hindex, hf⟩)
      exact ⟨f', hf', hstorage, hqualified'.trans hqualified⟩

end Qll.Program
