import Qll.Check.Value
import Qll.Proofs.Check.Resolving
import Qll.Proofs.Source.Names
import Qll.Proofs.Types.Mangled

/-!
# Written types are admitted once their names are resolved

A written type gets entries of its own for its names, and none of them is resolved before. Resolving
the names of the type resolves all of these entries, and each reads as a qualified name, since it was
found. So a written type is admitted once it was checked.
-/

namespace Qll.Check

open Qll.Computation
open Qll.Types (Ty Vocabulary Scope IsQualified Parts TypesOver MembersOver Member Store)
open Source (TypeExpr Location)

/-! ## Entries of a written type -/

/-- The parts of a written type: the entries from `lo` up to `hi`, each with a text of its own. -/
def writtenParts (lo hi : Nat) (label : Nat → String) (accepts : String → Prop) : Parts where
  name id text := lo ≤ id ∧ id < hi ∧ label id = text
  member := accepts
  var _ := False
  template _ := False

/-- Two labellings, side by side. -/
def glue (mid : Nat) (label label' : Nat → String) (id : Nat) : String :=
  if id < mid then label id else label' id

section Glue

variable {lo mid hi : Nat} {label label' : Nat → String} {accepts : String → Prop}

/-- The names of the first part keep their texts side by side with a second part. -/
theorem written_left (h : mid ≤ hi) (id : Nat) (text : String)
    (hid : (writtenParts lo mid label accepts).name id text) :
    (writtenParts lo hi (glue mid label label') accepts).name id text := by
  obtain ⟨hlo, hmid, rfl⟩ := hid
  exact ⟨hlo, by omega, by simp [glue, hmid]⟩

/-- The names of the second part keep their texts side by side with a first part. -/
theorem written_right (h : lo ≤ mid) (id : Nat) (text : String)
    (hid : (writtenParts mid hi label' accepts).name id text) :
    (writtenParts lo hi (glue mid label label') accepts).name id text := by
  obtain ⟨hmid, hhi, rfl⟩ := hid
  exact ⟨by omega, hhi, by simp [glue, Nat.not_lt.2 hmid]⟩

end Glue

/-- The store gets new entries, and nothing else changes. -/
structure Wrote (T T' : Store) : Prop where
  size : T.names.size ≤ T'.names.size
  binding : ∀ id, T'.binding? id = T.binding? id
  vars : T'.vars = T.vars
  templates : T'.templates = T.templates
  results : ∀ {id : Nat} {e : Types.ApplyEntry} {t}, T'.applies[id]? = some e → e.result = some t →
    ∃ e', T.applies[id]? = some e' ∧ e'.result = some t
  fits : ∀ {V : Vocabulary}, V.Fits T → V.Fits T'

namespace Wrote

variable {T T' T'' : Store}

/-- Nothing is written where nothing happens. -/
theorem refl (T : Store) : Wrote T T :=
  ⟨Nat.le_refl _, fun _ => rfl, rfl, rfl, fun he ht => ⟨_, he, ht⟩, fun h => h⟩

/-- Entries are written in two steps. -/
theorem trans (h : Wrote T T') (h' : Wrote T' T'') : Wrote T T'' := by
  refine ⟨Nat.le_trans h.size h'.size, fun id => (h'.binding id).trans (h.binding id),
    h'.vars.trans h.vars, h'.templates.trans h.templates, fun he ht => ?_,
    fun hT => h'.fits (h.fits hT)⟩
  obtain ⟨e', he', ht'⟩ := h'.results he ht
  exact h.results he' ht'

/-- An entry for a name is written behind the others. -/
theorem push_name (T : Store) : Wrote T { T with names := T.names.push {} } := by
  refine ⟨by simp, fun id => ?_, rfl, rfl, fun he ht => ⟨_, he, ht⟩, fun h => h.push_name⟩
  simp only [Store.binding?, Array.getElem?_push]
  split
  · next h => simp [h]
  · rfl

/-- An entry for an application is written behind the others. -/
theorem push_apply (T : Store) : Wrote T { T with applies := T.applies.push {} } := by
  refine ⟨Nat.le_refl _, fun _ => rfl, rfl, rfl, fun {id e t} he ht => ?_, fun h => h.push_apply⟩
  simp only [Array.getElem?_push] at he
  split at he
  · obtain rfl : ({} : Types.ApplyEntry) = e := by simpa using he
    cases ht
  · exact ⟨e, he, ht⟩

end Wrote

/-- What is written between two stores has entries of its own. -/
def Labelled (accepts : String → Prop) (T T' : Store) (form : Parts → Prop) : Prop :=
  ∃ label, form (writtenParts T.names.size T'.names.size label accepts)

/-- A new name. -/
theorem newName_ok {text : String} {l : Option Location} {T T' : Store} {u : Ty}
    (h : Types.newName text l T = .ok u T') :
    u = .name T.names.size text l ∧ T' = { T with names := T.names.push {} } := by
  simp only [Types.newName, bind_ok, get_ok, set_ok, pure_ok] at h
  obtain ⟨_, _, ⟨rfl, rfl⟩, _, _, rfl, rfl, rfl⟩ := h
  exact ⟨rfl, rfl⟩

/-- A new application. -/
theorem newApply_ok {text : String} {as : List Ty} {l : Option Location} {T T' : Store} {u : Ty}
    (h : Types.newApply text as l T = .ok u T') :
    u = .apply T.applies.size T.names.size text as l ∧
      T' = { T with names := T.names.push {}, applies := T.applies.push {} } := by
  simp only [Types.newApply, bind_ok, get_ok, set_ok, pure_ok] at h
  obtain ⟨_, _, ⟨rfl, rfl⟩, _, _, rfl, rfl, rfl⟩ := h
  exact ⟨rfl, rfl⟩

mutual

/-- A written type gets entries of its own. -/
theorem wrote_type (accepts : String → Prop) : ∀ (t : TypeExpr) {T T' : Store} {u : Ty},
    internType t T = .ok u T' → Wrote T T' ∧
      ((∀ n ∈ t.names, accepts n) → Labelled accepts T T' u.Over)
  | .name text l, T, T', u, h => by
    obtain ⟨rfl, rfl⟩ := newName_ok h
    exact ⟨.push_name T, fun _ => ⟨fun _ => text, Nat.le_refl _, by simp, rfl⟩⟩
  | .pointer e l, T, T', u, h | .slice e l, T, T', u, h | .array e _ l, T, T', u, h => by
    simp only [internType, bind_ok, pure_ok] at h
    obtain ⟨v, _, hv, rfl, rfl⟩ := h
    obtain ⟨hwrote, hlabel⟩ := wrote_type accepts e hv
    exact ⟨hwrote, fun hnames => hlabel hnames⟩
  | .struct members l, T, T', u, h => by
    simp only [internType, bind_ok, pure_ok] at h
    obtain ⟨ms, _, hms, rfl, rfl⟩ := h
    exact wrote_members accepts members hms
  | .function arguments result l, T, T', u, h => by
    simp only [internType, bind_ok, pure_ok] at h
    obtain ⟨as, T₁, has, r, T₂, hr, rfl, rfl⟩ := h
    obtain ⟨hwrote, hlabel⟩ := wrote_types accepts arguments has
    obtain ⟨hwrote', hlabel'⟩ := wrote_result accepts result hr
    refine ⟨hwrote.trans hwrote', fun hnames => ?_⟩
    simp only [TypeExpr.names, List.mem_append, or_imp, forall_and] at hnames
    obtain ⟨label, hover⟩ := hlabel hnames.1
    obtain ⟨label', hover'⟩ := hlabel' hnames.2
    exact ⟨glue T₁.names.size label label',
      hover.mono (written_left hwrote'.size) (fun _ h => h) (fun _ h => h) fun _ h => h,
      hover'.mono (written_right hwrote.size) (fun _ h => h) (fun _ h => h) fun _ h => h⟩
  | .apply text arguments l, T, T', u, h => by
    simp only [internType, bind_ok] at h
    obtain ⟨as, T₁, has, h⟩ := h
    obtain ⟨rfl, rfl⟩ := newApply_ok h
    obtain ⟨hwrote, hlabel⟩ := wrote_types accepts arguments has
    refine ⟨hwrote.trans ((Wrote.push_name T₁).trans (.push_apply _)), fun hnames => ?_⟩
    obtain ⟨label, hover⟩ := hlabel hnames
    refine ⟨glue T₁.names.size label fun _ => text, ⟨hwrote.size, by simp, by simp [glue]⟩, ?_⟩
    exact hover.mono (written_left (by simp)) (fun _ h => h) (fun _ h => h) fun _ h => h
  | .dot base member l, T, T', u, h => by
    simp only [internType, bind_ok, pure_ok] at h
    obtain ⟨b, _, hb, rfl, rfl⟩ := h
    obtain ⟨hwrote, hlabel⟩ := wrote_type accepts base hb
    refine ⟨hwrote, fun hnames => ?_⟩
    simp only [TypeExpr.names, List.forall_mem_cons] at hnames
    obtain ⟨label, hover⟩ := hlabel hnames.2
    exact ⟨label, hover, hnames.1⟩

/-- Written types get entries of their own. -/
theorem wrote_types (accepts : String → Prop) : ∀ (ts : List TypeExpr) {T T' : Store} {us : List Ty},
    internTypes ts T = .ok us T' → Wrote T T' ∧
      ((∀ n ∈ Source.typesNames ts, accepts n) → Labelled accepts T T' (TypesOver · us))
  | [], T, T', us, h => by
    obtain ⟨rfl, rfl⟩ := pure_ok.1 h
    exact ⟨.refl T, fun _ => ⟨fun _ => "", trivial⟩⟩
  | t :: rest, T, T', us, h => by
    simp only [internTypes, bind_ok, pure_ok] at h
    obtain ⟨u, T₁, hu, us, T₂, hus, rfl, rfl⟩ := h
    obtain ⟨hwrote, hlabel⟩ := wrote_type accepts t hu
    obtain ⟨hwrote', hlabel'⟩ := wrote_types accepts rest hus
    refine ⟨hwrote.trans hwrote', fun hnames => ?_⟩
    simp only [Source.typesNames, List.mem_append, or_imp, forall_and] at hnames
    obtain ⟨label, hover⟩ := hlabel hnames.1
    obtain ⟨label', hover'⟩ := hlabel' hnames.2
    exact ⟨glue T₁.names.size label label',
      hover.mono (written_left hwrote'.size) (fun _ h => h) (fun _ h => h) fun _ h => h,
      hover'.mono (written_right hwrote.size) (fun _ h => h) (fun _ h => h) fun _ h => h⟩

/-- Written members get entries of their own. -/
theorem wrote_members (accepts : String → Prop) :
    ∀ (ms : List (String × TypeExpr × Location)) {T T' : Store} {us : List (Member Ty)},
      internMembers ms T = .ok us T' → Wrote T T' ∧
        ((∀ n ∈ Source.membersNames ms, accepts n) → Labelled accepts T T' (MembersOver · us))
  | [], T, T', us, h => by
    obtain ⟨rfl, rfl⟩ := pure_ok.1 h
    exact ⟨.refl T, fun _ => ⟨fun _ => "", trivial⟩⟩
  | (name, t, l) :: rest, T, T', us, h => by
    simp only [internMembers, bind_ok, pure_ok] at h
    obtain ⟨u, T₁, hu, us, T₂, hus, rfl, rfl⟩ := h
    obtain ⟨hwrote, hlabel⟩ := wrote_type accepts t hu
    obtain ⟨hwrote', hlabel'⟩ := wrote_members accepts rest hus
    refine ⟨hwrote.trans hwrote', fun hnames => ?_⟩
    simp only [Source.membersNames, List.mem_cons, List.mem_append, or_imp, forall_and,
      forall_eq] at hnames
    obtain ⟨label, hover⟩ := hlabel hnames.2.1
    obtain ⟨label', hover'⟩ := hlabel' hnames.2.2
    exact ⟨glue T₁.names.size label label', ⟨hnames.1,
      hover.mono (written_left hwrote'.size) (fun _ h => h) (fun _ h => h) fun _ h => h⟩,
      hover'.mono (written_right hwrote.size) (fun _ h => h) (fun _ h => h) fun _ h => h⟩

/-- A written result type gets entries of its own. -/
theorem wrote_result (accepts : String → Prop) : ∀ (t : Option TypeExpr) {T T' : Store} {u : Ty},
    internResult t T = .ok u T' → Wrote T T' ∧
      ((∀ n ∈ Source.resultNames t, accepts n) → Labelled accepts T T' u.Over)
  | none, T, T', u, h => by
    obtain ⟨rfl, rfl⟩ := pure_ok.1 h
    exact ⟨.refl T, fun _ => ⟨fun _ => "", trivial⟩⟩
  | some t, T, T', u, h => wrote_type accepts t h

end

/-! ## Checking written types -/

/-- A written type is admitted once it was checked. -/
theorem checks_checkWritten {S : Setting} {c : Context} (t : TypeExpr) :
    Checks S (S.vocabulary.Scopes c.scope ∧ S.vocabulary.AcceptsAll t.names) S.vocabulary.Admits
      (checkWritten c t) := by
  intro s a s' hrun
  obtain ⟨u, s₁, hintern, hrun⟩ := check_bind_ok.1 hrun
  obtain ⟨types, hintern, hs₁⟩ := onTypes_ok hintern
  obtain ⟨_, s₃, hcheck, hlast⟩ := check_bind_ok.1 hrun
  obtain ⟨rfl, rfl⟩ := check_pure_ok.1 hlast
  obtain ⟨_, s₂, hbind, hkind⟩ := check_bind_ok.1 hcheck
  obtain ⟨hwrote, hlabel⟩ := wrote_type S.vocabulary.accepts t hintern
  have hgrows₁ : s.Grows s₁ := hs₁ ▸ .of_same rfl rfl rfl fun _ h => h
  obtain ⟨hgrows₂, hkeeps₂⟩ := checks_bindNames (S := S) u s₁ _ s₂ hbind
  obtain ⟨hgrows₃, hkeeps₃⟩ := checks_kindcheck (S := S) {} u s₂ _ s₃ hkind
  refine ⟨hgrows₁.trans (hgrows₂.trans hgrows₃), fun ⟨hscope, hnames⟩ hs ahead => ?_⟩
  have hinv₁ : S.Inv s₁ := hs₁ ▸ S.types hs (hwrote.fits (S.fits hs))
  have hinv₂ := (hkeeps₂ hscope hinv₁ (S.back hgrows₃ ahead)).1
  obtain ⟨label, hover⟩ := hlabel hnames
  have hresolvable : Resolvable S c.scope types.names.size
      (writtenParts s.types.names.size types.names.size label S.vocabulary.accepts)
      fun id _ => IsQualified S.vocabulary.accepts (label id) :=
    ⟨fun h => h.2.1, fun h hs hfound => h.2.2 ▸ (hfound.admitted hscope (S.offers hs)).2,
      fun _ h => h, fun _ h => h⟩
  obtain ⟨hresolving, hresolved⟩ := (resolves_bindNames hscope hresolvable hover).2 s₁ _ s₂ hbind
    (hs₁ ▸ Nat.le_refl _) hinv₁ (S.back hgrows₃ ahead)
  -- The entries are new, so they were resolved here, and their texts are those of names found.
  have hqualified (id : Nat) (text : String)
      (hid : (resolvedParts (writtenParts s.types.names.size types.names.size label
        S.vocabulary.accepts) s₂.types).name id text) : S.vocabulary.parts.name id text := by
    obtain ⟨⟨hlo, -, rfl⟩, hbound⟩ := hid
    obtain ⟨b, hb⟩ := Option.isSome_iff_exists.1 hbound
    refine .inr ((hresolving.new hb).resolve_left fun hold => ?_)
    rw [show s₁.types = types from hs₁ ▸ rfl, hwrote.binding] at hold
    simp [Store.binding?, hlo] at hold
  have hadmits : S.vocabulary.Admits u :=
    hresolved.mono hqualified (fun _ h => h) (fun _ h => h.elim) fun _ h => h.elim
  exact ⟨(hkeeps₃ ⟨hscope, hadmits⟩ hinv₂ ahead).1, hadmits⟩

end Qll.Check
