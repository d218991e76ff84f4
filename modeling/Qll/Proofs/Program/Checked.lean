import Qll.Proofs.Program.Checking
import Qll.Proofs.Program.Headers

/-!
# Checked programs

A program whose declarations are entered and whose types are checked is sound in the world that its
bodies will have made in the end. So a program that was checked without errors is sound: whatever
its checked bodies name is there, and was recorded.
-/

namespace Qll.Program

open Check (State CheckM World Checks Storage check_bind_ok check_pure_ok check_get_ok check_set_ok
  check_modify_ok check_throw_ok)
open Qll.Types (Ty Binding Scope Store Vocabulary)

variable {V : Vocabulary} {s₀ s s' : State}

/-! ## The world of a program -/

/-- The vocabulary of bodies: templates of functions may be used as well. -/
def bodyVocabulary (V : Vocabulary) (s₀ : State) (T : Store) : Vocabulary :=
  { known V s₀ T with
    template := fun id => (known V s₀ T).template id ∨ ∃ t ∈ s₀.templates, t.template = id
    idle := fun _ _ => True }

/-- The world of a program whose types are checked. -/
def worldOf (V : Vocabulary) (s₀ s : State) (nodes : Set String) : World where
  vocabulary := bodyVocabulary V s₀ s.types
  nodes
  templates := { q | ∃ t ∈ s₀.templates, t.qualified = q }

/-- Types of a program belong to the vocabulary of its bodies. -/
theorem bodyVocabulary_admits {T : Store} {t : Ty} (ht : (known V s₀ T).Admits t) :
    (bodyVocabulary V s₀ T).Admits t := by
  have hname (id : Nat) (text : String) (h : (known V s₀ T).parts.name id text) :
      (bodyVocabulary V s₀ T).parts.name id text := h
  exact Types.Ty.Over.mono hname (fun _ h => h) (fun _ h => h) (fun _ h => .inl h) ht

/-- Bindings of a program belong to the vocabulary of its bodies. -/
theorem bodyVocabulary_binds {T : Store} {b : Binding} (hb : (known V s₀ T).Binds b) :
    (bodyVocabulary V s₀ T).Binds b :=
  ⟨hb.qualified, bodyVocabulary_admits hb.type, fun scope hscope p hp =>
    (hb.scope scope hscope p hp).imp_right bodyVocabulary_admits⟩

/-- A template of a function has the signature of the function as its body. -/
theorem fits_bodyVocabulary (hs₀ : Entered V.accepts s₀) (hs : Known V s₀ s)
    (hall : ∀ t ∈ declaredTypes s₀, (known V s₀ s.types).Admits t) :
    (bodyVocabulary V s₀ s.types).Fits s.types := by
  obtain ⟨hfits, -, -⟩ := hs
  refine { hfits with
    binding := fun h => bodyVocabulary_binds (hfits.binding h)
    result := fun he ht => bodyVocabulary_admits (hfits.result he ht)
    bound := fun h => bodyVocabulary_admits (hfits.bound h)
    body := fun {id e} hid he => bodyVocabulary_admits ?_
    instances := fun {id e p} hid he hp => bodyVocabulary_admits ?_
    idle := fun _ _ => trivial }
  · by_cases htype : (known V s₀ s.types).template id
    · exact hfits.body htype he
    · obtain ⟨t, ht, rfl⟩ := hid.resolve_left htype
      obtain ⟨e', he', hbody⟩ := (hs₀.templates t ht).template
      obtain rfl : e = e' := Option.some.inj ((hfits.idle htype he).symm.trans he')
      rw [hbody]
      exact hall _ (.inr (.inr ⟨t, ht, rfl⟩))
  · by_cases htype : (known V s₀ s.types).template id
    · exact hfits.instances htype he hp
    · simp [hs₀.store.instances (hfits.idle htype he)] at hp

/-- A value of a table is a declared one. -/
theorem declared_worldOf (hs₀ : Entered V.accepts s₀) {nodes : Set String}
    (hall : ∀ t ∈ declaredTypes s₀, (known V s₀ s.types).Admits t)
    (hnodes : ∀ q ∈ s₀.nodes, q ∈ nodes) {st : Storage} (hst : HasItem s₀ st) :
    (worldOf V s₀ s nodes).Declared st := by
  obtain ⟨g, hg, rfl⟩ | ⟨f, hf, rfl⟩ | ⟨t, ht, hq, hkind, htype⟩ := hst
  · have hentered := hs₀.globals g hg
    obtain ⟨hkind, hq⟩ := hentered.storage
    refine ⟨by rw [hkind]; rfl, hq ▸ hentered.qualified.2, ?_, .inl (hnodes _ ?_)⟩
    · cases hwritten : g.type with
      | none =>
        obtain ⟨v, hv⟩ := hentered.inferred hwritten
        exact hv ▸ Vocabulary.admits_var
      | some t =>
        rw [(hentered.type t hwritten).2]
        exact bodyVocabulary_admits (hall t (.inl ⟨g, hg, hwritten⟩))
    · rw [hq]
      simp only [State.nodes, List.mem_append, List.mem_map, Array.mem_toList_iff]
      exact .inl ⟨g, hg, rfl⟩
  · have hentered := hs₀.functions f hf
    obtain ⟨hkind, hq⟩ := hentered.storage
    refine ⟨by rw [hkind]; rfl, hq ▸ hentered.qualified.2, ?_, .inl (hnodes _ ?_)⟩
    · rw [hentered.type]
      exact bodyVocabulary_admits (hall _ (.inr (.inl ⟨f, hf, rfl⟩)))
    · rw [hq]
      simp only [State.nodes, List.mem_append, List.mem_map, Array.mem_toList_iff]
      exact .inr ⟨f, hf, rfl⟩
  · refine ⟨by rw [hkind]; rfl, hq ▸ (hs₀.templates t ht).qualified.2, ?_,
      .inr ⟨⟨t, ht, hq⟩, hkind, t.template, htype⟩⟩
    rw [htype]
    exact .inr ⟨t, ht, rfl⟩

/-- A program is sound once its types are checked. -/
theorem sound_worldOf (hs₀ : Entered V.accepts s₀) (hs : Known V s₀ s) {nodes : Set String}
    (hall : ∀ t ∈ declaredTypes s₀, (known V s₀ s.types).Admits t)
    (hnodes : ∀ q ∈ s.nodes, q ∈ nodes) : (worldOf V s₀ s nodes).Sound s := by
  have hfits := fits_bodyVocabulary hs₀ hs hall
  obtain ⟨-, hoffers, hbeside⟩ := hs
  have hnodes₀ : ∀ q ∈ s₀.nodes, q ∈ nodes := by
    rw [hbeside] at hnodes
    exact hnodes
  refine ⟨hfits, ⟨hoffers.children, fun n hn p hp => ?_⟩, fun n hn p hp => ?_, ?_, ?_, ?_, ?_, ?_⟩
  · exact (hoffers.types n hn p hp).imp_right bodyVocabulary_binds
  · rw [hbeside] at hn
    exact declared_worldOf hs₀ hall hnodes₀ (hs₀.values n hn p hp)
  all_goals rw [hbeside]
  · simp [hs₀.bodies]
  · intro g hg
    have hentered := hs₀.globals g hg
    exact ⟨hentered.storage, hentered.qualified.1,
      fun t ht => bodyVocabulary_admits (hall t (.inl ⟨g, hg, ht⟩)), hentered.init,
      by simp [hentered.checked]⟩
  · intro f hf
    have hentered := hs₀.functions f hf
    have hsignature : (bodyVocabulary V s₀ s.types).Admits f.signature :=
      bodyVocabulary_admits (hall _ (.inr (.inl ⟨f, hf, rfl⟩)))
    obtain ⟨hparams, hresult⟩ := Vocabulary.admits_function.1 hsignature
    refine ⟨hentered.storage, hentered.type ▸ hsignature,
      ⟨hentered.qualified.2, .inl hentered.qualified.1⟩, fun p hp => ?_, hresult, ?_, hentered.body,
      by simp [hentered.checked]⟩
    · exact hparams p.type (List.mem_map_of_mem hp)
    · rw [hentered.scope]
      exact fun p hp => absurd hp (by simp [scopeOf])
  · intro t ht
    have hentered := hs₀.templates t ht
    exact ⟨hentered.qualified.1, hentered.typeParams, .inr ⟨t, ht, rfl⟩, hentered.body,
      by simp [hentered.instances]⟩
  · rintro q ⟨t, ht, rfl⟩
    obtain ⟨i, hi, rfl⟩ := Array.mem_iff_getElem.1 ht
    simp only [State.templateIndex?, List.find?_isSome, List.mem_reverse, List.mem_range]
    exact ⟨i, hi, by simp [hi]⟩

/-! ## Postponed checks -/

/-- Only reports are made. -/
structure Reports (s s' : State) : Prop where
  same : ∃ reports, s' = { s with reports }
  failed : s.failed = true → s'.failed = true
  graded : s.Graded → s'.Graded

/-- No reports are made if nothing happens. -/
theorem Reports.refl (s : State) : Reports s s := ⟨⟨_, rfl⟩, fun h => h, fun h => h⟩

/-- Reports after reports are reports. -/
theorem Reports.trans {s₁ : State} (h : Reports s s₁) (h' : Reports s₁ s') : Reports s s' := by
  obtain ⟨⟨reports, rfl⟩, hfailed, hgraded⟩ := h
  obtain ⟨⟨reports', rfl⟩, hfailed', hgraded'⟩ := h'
  exact ⟨⟨reports', rfl⟩, fun h => hfailed' (hfailed h), fun h => hgraded' (hgraded h)⟩

/-- One more report, which is an error only if it counts as one. -/
theorem reports_push (s : State) {d : Diagnostic} (hd : d.isError = true → d.severity = .error) :
    Reports s { s with reports := s.reports.push d } :=
  ⟨⟨_, rfl⟩, State.failed_push d, State.graded_push hd⟩

/-- A postponed check only reports; an error is reported of a template used as a value. -/
theorem performPostponed_ok {p : Check.Postponed} {u : Unit}
    (hrun : performPostponed p directory s = .ok u s') : Reports s s' ∧
      ∀ scope name location, p = .bareTemplate scope name location → s'.failed = true := by
  cases p with
  | bareTemplate scope name location =>
    obtain rfl := check_modify_ok.1 hrun
    exact ⟨reports_push s fun _ => rfl, fun _ _ _ _ => by simp [State.failed, State.errors_push]⟩
  | unusedTemplate index =>
    refine ⟨?_, by simp⟩
    unfold performPostponed at hrun
    rw [check_get_ok] at hrun
    cases ht : s.templates[index]? with
    | none =>
      rw [ht] at hrun
      obtain ⟨-, rfl⟩ := check_pure_ok.1 hrun
      exact .refl s
    | some t =>
      rw [ht] at hrun
      dsimp only at hrun
      split at hrun
      · obtain rfl := check_modify_ok.1 hrun
        exact reports_push s fun h => absurd h Bool.false_ne_true
      · obtain ⟨-, rfl⟩ := check_pure_ok.1 hrun
        exact .refl s
  | other index =>
    obtain ⟨-, rfl⟩ := check_pure_ok.1 hrun
    exact ⟨.refl s, by simp⟩

/-- Postponed checks only report, and none of them was of a template used as a value unless an error
was reported. -/
theorem runPostponedFrom_ok {n i : Nat} {u : Unit}
    (hrun : Check.runPostponedFrom performPostponed n i directory s = .ok u s') : Reports s s' ∧
      ∀ k scope name location, i ≤ k → s.postponed[k]? = some (.bareTemplate scope name location) →
        s'.failed = true := by
  induction n generalizing s i with
  | zero => exact absurd hrun check_throw_ok
  | succ n ih =>
    replace hrun := check_get_ok.1 hrun
    cases hp : s.postponed[i]? with
    | none =>
      rw [hp] at hrun
      obtain ⟨-, rfl⟩ := check_pure_ok.1 hrun
      refine ⟨.refl s, fun k scope name location hk hbare => ?_⟩
      have hi : s.postponed.size ≤ i := Array.getElem?_eq_none_iff.1 hp
      simp [Array.getElem?_eq_none (Nat.le_trans hi hk)] at hbare
    | some p =>
      rw [hp] at hrun
      obtain ⟨_, s₁, hfirst, hrest⟩ := check_bind_ok.1 hrun
      obtain ⟨hreports, hbare⟩ := performPostponed_ok hfirst
      obtain ⟨hreports', hbares⟩ := ih hrest
      have hsame : s₁.postponed = s.postponed := by
        obtain ⟨reports, rfl⟩ := hreports.same
        rfl
      refine ⟨hreports.trans hreports', fun k scope name location hk hk' => ?_⟩
      obtain rfl | hk := Nat.eq_or_lt_of_le hk
      · exact hreports'.failed (hbare scope name location (Option.some.inj (hp.symm.trans hk')))
      · exact hbares k scope name location hk (hsame ▸ hk')

/-- A program whose postponed checks went well was not doomed before them. -/
theorem deferred_ok {b : Bool} (hrun : deferred directory s = .ok b s') (hok : s'.failed = false) :
    ¬ s.Doomed ∧ ∃ reports postponed, s' = { s with reports, postponed } := by
  replace hrun := check_get_ok.1 hrun
  split at hrun
  · next hfailed =>
    obtain ⟨-, rfl⟩ := check_pure_ok.1 hrun
    simp [hfailed] at hok
  · next hsound =>
    obtain ⟨_, s₁, hchecks, hrest⟩ := check_bind_ok.1 hrun
    obtain ⟨_, s₂, hclear, hlast⟩ := check_bind_ok.1 hrest
    obtain ⟨-, rfl⟩ := check_pure_ok.1 hlast
    obtain rfl := check_modify_ok.1 hclear
    obtain ⟨⟨⟨reports, rfl⟩, -, -⟩, hbares⟩ := runPostponedFrom_ok hchecks
    refine ⟨?_, reports, #[], rfl⟩
    rintro (hfailed | ⟨scope, name, location, hbare⟩)
    · exact hsound hfailed
    · obtain ⟨k, hk⟩ := Array.mem_iff_getElem?.1 hbare
      exact absurd (hbares k scope name location (Nat.zero_le k) hk) (by simpa [State.failed, State.errors] using hok)

/-! ## Errors stay counted

A stage that came to its end added to what it was given, so no error is forgotten between stages.
-/

section Counted

variable {u : Unit}

/-- Resolving an import lets the state grow only. -/
theorem grows_resolveImport {index : Nat}
    (hrun : resolveImport index directory s = .ok u s') : s.Grows s' := by
  unfold resolveImport at hrun
  rw [check_get_ok] at hrun
  cases himport : s.imports[index]? with
  | none =>
    rw [himport] at hrun
    obtain ⟨-, rfl⟩ := check_pure_ok.1 hrun
    exact .refl s
  | some i =>
    cases hspace : findSpace s i.owner i.name with
    | none =>
      simp only [himport, hspace] at hrun
      obtain rfl := check_modify_ok.1 hrun
      exact .report s fun _ => rfl
    | some target =>
      simp only [himport, hspace] at hrun
      obtain rfl := check_set_ok.1 hrun
      exact .of_same rfl rfl rfl fun _ h => h

/-- Resolving names lets the state grow only. -/
theorem grows_bind (hrun : bind directory s = .ok u s') : s.Grows s' := by
  have himports {indices : List Nat} {u : PUnit} {s s' : State}
      (hrun : indices.forM resolveImport directory s = .ok u s') : s.Grows s' := by
    induction indices generalizing s with
    | nil =>
      obtain ⟨-, rfl⟩ := check_pure_ok.1 hrun
      exact .refl s
    | cons index indices ih =>
      obtain ⟨_, s₁, hfirst, hrest⟩ := check_bind_ok.1 hrun
      exact (grows_resolveImport hfirst).trans (ih hrest)
  obtain ⟨_, s₁, hfirst, hitems⟩ := check_bind_ok.1 (check_get_ok.1 hrun)
  exact (himports hfirst).trans
    (Checks.forM (fun item _ => checks_bindNames s item.scope item.type) s₁ u s'
      (check_get_ok.1 hitems)).1

-- Growth does not depend on what is known of the state, so the poorest vocabulary and world do.

/-- The kind stage lets the state grow only. -/
theorem grows_kindcheck (hrun : kindcheck directory s = .ok u s') : s.Grows s' :=
  (renews_kindcheck (V := everything) (entered_emptyState (n := 0) trivial) s u s' hrun).1

/-- Checking bodies lets the state grow only. -/
theorem grows_typecheck (hrun : typecheck directory s = .ok u s') : s.Grows s' :=
  (checks_typecheck (w := ⟨everything, ∅, ∅⟩) (j := none) (R := ∅) (P := True) s u s' hrun).1

/-- After errors no postponed check is made. -/
theorem failed_deferred {b : Bool} (hrun : deferred directory s = .ok b s')
    (h : s.failed = true) : s'.failed = true := by
  replace hrun := check_get_ok.1 hrun
  rw [if_pos h] at hrun
  obtain ⟨-, rfl⟩ := check_pure_ok.1 hrun
  exact h

/-- Postponed checks keep every severity in its place. -/
theorem graded_deferred {b : Bool} (hrun : deferred directory s = .ok b s') (h : s.Graded) :
    s'.Graded := by
  replace hrun := check_get_ok.1 hrun
  split at hrun
  · obtain ⟨-, rfl⟩ := check_pure_ok.1 hrun
    exact h
  · obtain ⟨_, s₁, hchecks, hrest⟩ := check_bind_ok.1 hrun
    obtain ⟨_, s₂, hclear, hlast⟩ := check_bind_ok.1 hrest
    obtain ⟨-, rfl⟩ := check_pure_ok.1 hlast
    obtain rfl := check_modify_ok.1 hclear
    exact (runPostponedFrom_ok hchecks).1.graded h

end Counted

/-! ## Accepted programs -/

/-- A sound state stays sound when reports and postponed checks change. -/
theorem sound_same {w : World} (hs : w.Sound s) (reports : Array Diagnostic)
    (postponed : Array Check.Postponed) : w.Sound { s with reports, postponed } :=
  ⟨hs.fits, ⟨hs.offers.children, hs.offers.types⟩, hs.values, hs.bodies, hs.globals, hs.functions,
    hs.items, hs.templates⟩

/-- Entered declarations that went through all checks without an error are sound in a world that has
exactly the declarations of the program. -/
theorem sound_entered (hs₀ : Entered V.accepts s₀) {s₁ s₂ s₃ : State} {b : Bool}
    (hbind : bind directory s₀ = .ok () s₁) (hkind : kindcheck directory s₁ = .ok () s₂)
    (htypes : typecheck directory s₂ = .ok () s₃) (hdeferred : deferred directory s₃ = .ok b s)
    (hok : s.failed = false) :
    ∃ w : World, w.vocabulary.accepts = V.accepts ∧ w.nodes = { q | q ∈ s.nodes } ∧ w.Sound s := by
  obtain ⟨hsound, reports, postponed, rfl⟩ := deferred_ok hdeferred hok
  let w : World := worldOf V s₀ s₂ { q | q ∈ s₃.nodes }
  obtain ⟨hgrows, hkeeps⟩ :=
    checks_typecheck (w := w) (j := none) (R := ∅) (P := True) s₂ () s₃ htypes
  obtain ⟨hknown, hall⟩ := known_kindcheck hs₀ hbind hkind fun h => hsound (hgrows.doomed h)
  have hs₂ : w.Sound s₂ := sound_worldOf hs₀ hknown hall fun q hq => hgrows.nodes hq
  obtain ⟨⟨hs₃, -⟩, -⟩ := hkeeps trivial ⟨hs₂, by simp⟩ ⟨hsound, fun q hq => hq, by simp⟩
  exact ⟨w, rfl, rfl, sound_same hs₃ reports postponed⟩

/-- A program that went through all checks without an error is sound in a world that has exactly its
declarations. -/
theorem sound_checked (V : Vocabulary) {decls : List Source.Decl}
    (hnames : ∀ n ∈ Source.declsNames decls, V.accepts n) {s₁ s₂ s₃ : State} {n : Nat} {b : Bool}
    (hdeclare : declareProgram decls directory (emptyState.withLimit n) = .ok () s₀)
    (hbind : bind directory s₀ = .ok () s₁) (hkind : kindcheck directory s₁ = .ok () s₂)
    (htypes : typecheck directory s₂ = .ok () s₃) (hdeferred : deferred directory s₃ = .ok b s)
    (hok : s.failed = false) :
    ∃ w : World, w.vocabulary.accepts = V.accepts ∧ w.nodes = { q | q ∈ s.nodes } ∧ w.Sound s :=
  sound_entered (entered_declareProgram V.root hnames hdeclare) hbind hkind htypes hdeferred hok

end Qll.Program
