import Qll.Proofs.Program.Recursion

/-!
# Member types

The type of a member is followed by following the type that it is taken of, and by asking that one for
the member, which takes the sizes of the members before it. In a program with member types following
comes to an end as long as these sizes do: no member type is taken of a type that contains itself by
value. A struct that projects itself behind a pointer does not come to an end, because its size is asked
for while its references are not marked yet.
-/

namespace Qll.Types

open Source (Location)

variable {T T' : Store} {D : String → Ty → Prop} {p p' : Path} {t u : Ty}

/-- A member type that occurs in a type is taken of another one. -/
inductive Base (b : Ty) : Ty → Prop
  | here {m l} : Base b (.dot b m l)
  | dot {b' m l} (h : Base b b') : Base b (.dot b' m l)
  | pointer {e l} (h : Base b e) : Base b (.pointer e l)
  | slice {e l} (h : Base b e) : Base b (.slice e l)
  | array {e n l} (h : Base b e) : Base b (.array e n l)
  | member {ms l m} (hm : m ∈ ms) (h : Base b m.type) : Base b (.struct ms l)
  | argument {as r l a} (ha : a ∈ as) (h : Base b a) : Base b (.function as r l)
  | result {as r l} (h : Base b r) : Base b (.function as r l)

/-- The names of a type are resolved, and its member types are taken of types with finite layouts. -/
structure Grounded (T : Store) (t : Ty) : Prop where
  projected : Projected True (fun id => (T.binding? id).isSome) (fun _ => True) t
  bases : ∀ b, Base b t → Layout T (· ≠ unsized) False b

/-- A store in which every name stands for such a type, declared under its qualified name or builtin,
and each qualified name is declared once. -/
structure Projecting (T : Store) (D : String → Ty → Prop) : Prop where
  declares : Declares T D
  grounded : ∀ {id b}, T.binding? id = some b → Grounded T b.type
  unique : ∀ {q u u'}, D q u → D q u' → u = u'

/-! ## Shapes -/

/-- A type with a finite layout has a shape, as long as nothing in it lacks a size. -/
theorem Layout.resolves (h : Layout T (· ≠ unsized) False t) : ∃ u, u.IsShape ∧ Resolves T t u := by
  induction h with
  | @name id text l u h _ ih =>
    obtain ⟨w, hw, hr⟩ := ih
    exact ⟨w, hw, .succ (.bind (.const fun _ => read_ok.2 ⟨h, rfl⟩) hr)⟩
  | apply h _ ih =>
    obtain ⟨w, hw, hr⟩ := ih
    exact ⟨w, hw, .succ (.bind (.const fun m => applied_of_instance (T := T.withLimit m) h _ _ _) hr)⟩
  | var h _ ih =>
    obtain ⟨w, hw, hr⟩ := ih
    exact ⟨w, hw, settles_resolve_var (by rwa [h])⟩
  | template hbare => exact hbare.elim
  | unbound hbare => exact hbare.elim
  | @dot b m l hb hmembers ihb ihmembers =>
    have hfinishes {v : Ty} (hv : Layout T (· ≠ unsized) False v) :=
      hv.finishes (E := fun _ => False) False.elim
    obtain ⟨r, hr, hmember, hcases⟩ := memberType_settles m (hfinishes hb).1
      fun ms l hs x hx => (hfinishes (hmembers ms l hs x hx)).2
    cases r with
    | error e => exact (hr e rfl).elim
    | ok v =>
      have hstep {w : Ty} (hw : Resolves T v w) : Resolves T (.dot b m l) w := .succ (hmember.bind hw)
      obtain rfl | ⟨ms, l', hs, x, hx, rfl⟩ := hcases v rfl
      · exact ⟨.error, trivial, hstep (.succ (.const fun _ => rfl))⟩
      · obtain ⟨w, hw, hr⟩ := ihmembers ms l' hs x hx
        exact ⟨w, hw, hstep hr⟩
  | _ =>
    refine ⟨_, ?_, .succ (.const fun _ => rfl)⟩
    exact trivial

/-- Whether a shape is the error type is known. -/
theorem settles_isError (h : u.IsShape) : ∃ e, Settles (fun _ => isError u) T (.ok e) := by
  suffices hread : ∃ e, ∀ m, isError u (T.withLimit (m + 1)) = .ok e (T.withLimit (m + 1)) by
    obtain ⟨e, he⟩ := hread
    refine ⟨e, 1, fun n m _ hm => ?_⟩
    obtain ⟨k, rfl⟩ := Nat.exists_eq_add_of_le' hm
    exact he k
  cases u with
  | name => exact h.elim
  | apply => exact h.elim
  | dot => exact h.elim
  | var => exact h.elim
  | template => exact h.elim
  | builtin kind => exact ⟨kind == .error, fun _ => rfl⟩
  | _ => exact ⟨false, fun _ => rfl⟩

/-- Names lead to a type that is no name itself. -/
inductive Headed (T : Store) : Ty → Prop
  | form {t : Ty} (h : ∀ id text l, t ≠ .name id text l) : Headed T t
  | name {id text l b} (hb : T.binding? id = some b) (h : Headed T b.type) : Headed T (.name id text l)

/-- Where names lead to such a type there is a shape, whatever is marked. -/
theorem Headed.resolves (hT : Projecting T D) (h : Headed T t) (ht : Grounded T t)
    (hbinding : ∀ id, T'.binding? id = T.binding? id) (honward : Onward T T') :
    ∃ u, Resolves T' t u := by
  induction h with
  | @form t h =>
    cases t with
    | name id text l => exact absurd rfl (h id text l)
    | dot b m l =>
      obtain ⟨u, -, hu⟩ := (((ht.bases b .here).onward honward).memberType m l).resolves
      exact ⟨u, hu⟩
    | apply => nomatch ht.projected
    | var => nomatch ht.projected
    | template => nomatch ht.projected
    | _ => exact ⟨_, .succ (.const fun _ => rfl)⟩
  | @name id text l b hb _ ih =>
    obtain ⟨u, hu⟩ := ih (hT.grounded hb)
    obtain h | h := target_of_binding ((hbinding id).trans hb) text
    · exact ⟨u, .succ (.bind (.const fun _ => read_ok.2 ⟨h, rfl⟩) hu)⟩
    · refine ⟨.error, .succ (.bind (.const fun _ => read_ok.2 ⟨h, rfl⟩) ?_)⟩
      exact .succ (.const fun _ => rfl)

/-- The definitions on a path lead to types that are no names: those left behind do, and the others do
if the type does that the path has come to. -/
structure Path.Heads (T : Store) (D : String → Ty → Prop) (p : Path) (t : Ty) : Prop where
  names : ∀ q ∈ p.names, ∀ u, D q u → Headed T t → Headed T u
  passed : ∀ q ∈ p.passed, ∀ u, D q u → Headed T u

namespace Path.Heads

/-- A definition on the path leads to what its type leads to. -/
theorem define {q : String} (h : D q u) (hunique : ∀ {q u u'}, D q u → D q u' → u = u') :
    Path.Heads T D (Path.define {} q) u where
  names q' hq' u' hu' := by
    obtain rfl : q' = q := by simpa [Path.mem_names, Path.define] using hq'
    exact hunique h hu' ▸ fun h => h
  passed q' hq' := by simp [Path.define] at hq'

/-- A path that goes on from a type that is no name. -/
theorem form (h : p.Heads T D t) (ht : ∀ id text l, t ≠ .name id text l)
    (hnames : ∀ q, q ∈ p'.names → q ∈ p.names) : p'.Heads T D u where
  names q hq v hv _ := h.names q (hnames q hq) v hv (.form ht)
  passed q hq v hv := h.names q (hnames q (Path.mem_names.2 (by simp [hq]))) v hv (.form ht)

/-- A path enters a definition. -/
theorem enter {id : Nat} {text : String} {l : Option Location} {b : Binding}
    (h : p.Heads T D (.name id text l)) (hb : T.binding? id = some b) (hdef : D b.qualified b.type)
    (hunique : ∀ {q u u'}, D q u → D q u' → u = u') : (p.define b.qualified).Heads T D b.type where
  names q hq u hu hhead := by
    obtain hq | rfl := Path.mem_names_define.1 hq
    · exact h.names q hq u hu (.name hb hhead)
    · exact hunique hdef hu ▸ hhead
  passed q hq := h.passed q hq

end Path.Heads

/-- The limit of a store does not matter for what is known of its entries. -/
theorem Onward.of_withLimit {n : Nat} (h : T.withLimit n = T'.withLimit n) : Onward T T' where
  target {id text _} hu := .inl ((congrArg (·.target id text) h).symm.trans hu)
  instance? {id _} hu := .inl ((congrArg (·.instance? id) h).symm.trans hu)
  vars := congrArg (·.vars) h.symm
  templates id := congrArg (fun T => (T.templates[id]?).map fun e => (e.params, e.body)) h.symm

end Qll.Types

namespace Qll.Check

open Source (Location)
open Qll.Types (Ty Scope Path Store Binding Layout Onward Grounded Projecting Projected Base Headed
  Marked Settles)

variable {T : Store} {D : String → Ty → Prop} {d : Directory} {p : Path} {t : Ty} {s s' : State}

/-! ## Following ends -/

/-- What following types leaves of the store goes on from what was known. -/
theorem Outcome.onward {F : Found} (h : Outcome F s s') : Onward s.types s'.types where
  target := by
    intro id text u hu
    unfold Store.target at hu
    split at hu
    · next b cyclic he =>
      have hb : s.types.binding? id = some b := by simp [Store.binding?, he]
      have hb' : s'.types.binding? id = some b := (h.binding id).trans hb
      obtain rfl : (if cyclic then Ty.error else b.type) = u := by simpa using hu
      cases cyclic with
      | true =>
        have hmarked : Marked s'.types id := (h.marked id).2 (.inl ⟨_, he, rfl⟩)
        exact .inr (Types.target_of_marked hb' hmarked text)
      | false => exact Types.target_of_binding hb' text
    · cases hu
  instance? := by
    intro id u hu
    rw [h.same]
    exact .inl hu
  vars := by rw [h.same]
  templates id := by rw [h.same]

/-- What became of a state whose names were resolved. -/
structure After (T : Store) (s : State) : Prop where
  onward : Onward T s.types
  binding : ∀ id, s.types.binding? id = T.binding? id

/-- Following further types leaves the state as it was after the names were resolved. -/
theorem After.outcome {F : Found} (hs : After T s) (h : Outcome F s s') : After T s' :=
  ⟨hs.onward.trans h.onward, fun id => (h.binding id).trans (hs.binding id)⟩

/-- Following a type comes to an end, and afterwards the type stands for a shape. -/
def Ends (d : Directory) (T : Store) (p : Path) (t : Ty) : Prop :=
  ∀ scope s, After T s → ∃ s', Runs d (fun n => kindcheckWithin n scope p t) s () s' ∧
    (∃ F, Outcome F s s') ∧ ∃ u, Types.Resolves s'.types t u

/-- Arguments are followed one by one. -/
theorem ends_list {ts : List Ty} (hts : ∀ t ∈ ts, Ends d T p t) (scope : Scope) (hs : After T s) :
    ∃ s', Runs d (fun n => ts.forM (kindcheckWithin n scope p)) s () s' ∧ ∃ F, Outcome F s s' := by
  induction ts generalizing s with
  | nil => exact ⟨s, .const fun _ => rfl, _, .nothing (F := fun _ _ => False) (fun _ _ h => h) s⟩
  | cons t rest ih =>
    obtain ⟨ht, hrest⟩ := List.forall_mem_cons.1 hts
    obtain ⟨s₁, hrun₁, ⟨F, hout₁⟩, -⟩ := ht scope s hs
    obtain ⟨s₂, hrun₂, G, hout₂⟩ := ih hrest (hs.outcome hout₁)
    exact ⟨s₂, hrun₁.bind hrun₂, _, hout₁.trans hout₂⟩

/-- A member is looked for in a type with a finite layout. -/
theorem runs_checkDot {base : Ty} (hlayout : Layout s.types (· ≠ Types.unsized) False base)
    (htext : base.Over Types.plainParts) (scope : Scope) (member : String) (location : Option Location) :
    ∃ s', Runs d (fun _ => checkDot scope base member location) s () s' ∧ ∃ F, Outcome F s s' := by
  obtain ⟨u, hshape, hu⟩ := hlayout.resolves
  obtain ⟨e, he⟩ := Types.settles_isError (T := s.types) hshape
  have hresolve : Runs d (fun _ => onTypes (Types.resolve base)) s u s := .types hu.limited
  have herror : Runs d (fun _ => onTypes (Types.isError u)) s e s := .types he
  have hsame : Outcome (fun _ _ => False) s s := .nothing (fun _ _ h => h) s
  obtain ⟨text, htext⟩ := runs_textOf (d := d) (s := s) htext
  -- What is reported where there is no such member.
  have hreport (message : String) : Outcome (fun _ _ => False) s
      (s.reporting scope location .unknownMember message) := .note (by decide) s
  cases e with
  | true => exact ⟨s, hresolve.bind (herror.bind (.const fun _ => rfl)), _, hsame⟩
  | false =>
    by_cases hstruct : ∃ ms l, u = .struct ms l
    · obtain ⟨ms, l, rfl⟩ := hstruct
      obtain ⟨r, hr, hfind⟩ := Layout.findMember_finishes (E := fun _ => False)
        (fun m hm => ((hlayout.members hu m hm).finishes False.elim).2) member 0
      cases r with
      | error f => exact (hr f rfl).elim
      | ok found =>
        have hfound : Runs d (fun _ => onTypes (Types.findMember ms member)) s found s :=
          .types hfind.limited
        cases found with
        | some x =>
          exact ⟨s, hresolve.bind (herror.bind (hfound.bind (.const fun _ => rfl))), _, hsame⟩
        | none =>
          refine ⟨_, hresolve.bind (herror.bind (hfound.bind (htext.bind ?_))), _,
            hreport ("type " ++ text ++ " has no member " ++ member)⟩
          exact runs_reportError scope location .unknownMember _
    · refine ⟨_, hresolve.bind (herror.bind ?_), _, hreport ("type " ++ text ++ " has no members")⟩
      cases u with
      | struct ms l => exact absurd ⟨ms, l, rfl⟩ hstruct
      | _ => exact htext.bind (runs_reportError scope location .unknownMember _)

/-- A reference to a definition is followed. -/
theorem ends_definition (hT : Projecting T D) {id : Nat} {text : String} {l : Option Location}
    {b : Binding} (hb : T.binding? id = some b) (hdef : b.type.IsDefinition)
    (hp : p.Heads T D (.name id text l))
    (henter : b.qualified ∉ p.names → Ends d T (p.define b.qualified) b.type) :
    Ends d T p (.name id text l) := by
  intro scope s hs
  have hbound := (hs.binding id).trans hb
  let follow (n : Nat) : CheckM Bool := followReference scope p l b.qualified b.qualified fun next =>
    kindcheckWithin n (b.scope.getD scope) next b.type
  -- What the name stands for afterwards, once its definition stands for a shape.
  have hstands {s' : State} (hs' : After T s') (h : ∃ u, Types.Resolves s'.types b.type u) :
      ∃ u, Types.Resolves s'.types (.name id text l) u := by
    obtain ⟨u, hu⟩ := h
    obtain h | h := Types.target_of_binding ((hs'.binding id).trans hb) text
    · exact ⟨u, .succ (.bind (.const fun _ => Types.read_ok.2 ⟨h, rfl⟩) hu)⟩
    · refine ⟨.error, .succ (.bind (.const fun _ => Types.read_ok.2 ⟨h, rfl⟩) ?_)⟩
      exact .succ (.const fun _ => rfl)
  obtain ⟨hpassed, href⟩ | ⟨-, -, href⟩ | ⟨hfresh, href⟩ := p.reference_cases b.qualified
  · have hfollow : Runs d follow s true s := by
      simp only [follow, followReference, href]
      exact .const fun _ => rfl
    have hhead : Headed T b.type := hp.passed _ hpassed _ (hT.declares hb hdef)
    refine ⟨s, runs_definition hbound hdef hfollow fun _ => rfl,
      ⟨_, .nothing (F := fun _ _ => False) (fun _ _ h => h) s⟩, hstands hs ?_⟩
    exact hhead.resolves hT (hT.grounded hb) hs.binding hs.onward
  · let message := "recursive type " ++ b.qualified ++ " has infinite size"
    have hfollow : Runs d follow s false (s.reporting scope l .recursiveType message) := by
      simp only [follow, followReference, href]
      exact .const fun _ => rfl
    have hout := outcome_infinite hbound scope (l := l) message
    refine ⟨_, runs_definition hbound hdef hfollow fun _ => rfl, ⟨_, hout⟩, .error, ?_⟩
    have hmarked := Types.target_of_marked ((hout.binding id).trans hbound)
      ((hout.marked id).2 (.inr ⟨l, rfl, rfl⟩)) text
    refine .succ (.bind (.const fun _ => Types.read_ok.2 ⟨hmarked, rfl⟩) ?_)
    exact .succ (.const fun _ => rfl)
  · obtain ⟨s', hrun, ⟨F, hout⟩, hu⟩ := henter hfresh (b.scope.getD scope) s hs
    have hfollow : Runs d follow s true s' := by
      simp only [follow, followReference, href]
      exact hrun.bind (.const fun _ => rfl)
    exact ⟨s', runs_definition hbound hdef hfollow fun _ => rfl, ⟨F, hout⟩,
      hstands (hs.outcome hout) hu⟩

/-- What becomes of a state over two stretches becomes of it over both. -/
theorem exists_outcome_trans {s₁ : State} (h : ∃ F, Outcome F s s₁) (h' : ∃ F, Outcome F s₁ s') :
    ∃ F, Outcome F s s' := by
  obtain ⟨F, h⟩ := h
  obtain ⟨G, h'⟩ := h'
  exact ⟨_, h.trans h'⟩

/-- Following a type ends if every definition that it can still enter does. -/
theorem ends_of_enter (hT : Projecting T D) (ht : Grounded T t)
    (henter : ∀ (p' : Path) id b, (∀ q, q ∈ p'.names ↔ q ∈ p.names) → T.binding? id = some b →
      b.type.IsDefinition → b.qualified ∉ p.names → (p'.define b.qualified).Heads T D b.type →
        Ends d T (p'.define b.qualified) b.type) :
    ∀ p' : Path, (∀ q, q ∈ p'.names ↔ q ∈ p.names) → p'.Heads T D t → Ends d T p' t := by
  obtain ⟨hprojected, hbases⟩ := ht
  have hnothing (s : State) : ∃ F, Outcome F s s :=
    ⟨fun _ _ => False, .nothing (fun _ _ h => h) s⟩
  induction hprojected with
  | builtin =>
    intro p' _ _ scope s _
    exact ⟨s, .succ (.const fun _ => rfl), hnothing s, _, .succ (.const fun _ => rfl)⟩
  | @name id text l h =>
    intro p' hnames hp
    obtain ⟨b, hb⟩ := Option.isSome_iff_exists.1 h
    by_cases hdef : b.type.IsDefinition
    · refine ends_definition hT hb hdef hp fun hfresh => ?_
      exact henter p' id b hnames hb hdef (by rwa [← hnames])
        (hp.enter hb (hT.declares hb hdef) hT.unique)
    · intro scope s hs
      obtain ⟨kind, l', hkind⟩ := (hT.grounded hb).projected.builtin_of_not_isDefinition hdef
      have hhead : Headed T (.name id text l) := .name hb (.form (by simp [hkind]))
      refine ⟨s, .succ ?_, hnothing s, hhead.resolves hT ⟨.name h, hbases⟩ hs.binding hs.onward⟩
      exact ⟨0, fun n m _ _ => kindcheck_ground (s := s.withLimit m) ((hs.binding id).trans hb) hdef⟩
  | pointer _ ih =>
    intro p' hnames hp scope s hs
    obtain ⟨s', hrun, hout, -⟩ := ih (fun b h => hbases b (.pointer h)) p'.pointer
      (by simpa using hnames) (hp.form (by simp) (by simp)) scope s hs
    exact ⟨s', .succ hrun, hout, _, .succ (.const fun _ => rfl)⟩
  | slice _ ih =>
    intro p' hnames hp scope s hs
    obtain ⟨s', hrun, hout, -⟩ := ih (fun b h => hbases b (.slice h)) p'.pointer
      (by simpa using hnames) (hp.form (by simp) (by simp)) scope s hs
    exact ⟨s', .succ hrun, hout, _, .succ (.const fun _ => rfl)⟩
  | @array e n l _ _ ih =>
    intro p' hnames hp scope s hs
    have hinner := ih fun b h => hbases b (.array h)
    by_cases hunsized : n = Types.unsized
    · obtain ⟨s', hrun, hout, -⟩ := hinner p'.pointer (by simpa using hnames)
        (hp.form (by simp) (by simp)) scope s hs
      subst hunsized
      exact ⟨s', .succ hrun, hout, _, .succ (.const fun _ => rfl)⟩
    · by_cases hn : n < 0
      · have hout : Outcome (fun _ _ => False) s
            (s.reporting scope l .invalidLength ("invalid array length " ++ Text.decimal n)) :=
          .note (by decide) s
        refine ⟨_, .succ ?_, ⟨_, hout⟩, _, .succ (.const fun _ => rfl)⟩
        simp only [kindcheckWithin, if_neg hunsized, if_pos hn]
        exact runs_reportError scope l .invalidLength _
      · obtain ⟨s', hrun, hout, -⟩ := hinner p' hnames (hp.form (by simp) (by simp)) scope s hs
        refine ⟨s', .succ ?_, hout, _, .succ (.const fun _ => rfl)⟩
        simp only [kindcheckWithin, if_neg hunsized, if_neg hn]
        exact hrun
  | @struct ms l hms ih =>
    intro p' hnames hp scope s hs
    have hmembers (m : Types.Member Ty) (hm : m ∈ ms) : Ends d T p'.struct m.type :=
      ih m hm (fun b h => hbases b (.member hm h)) p'.struct (by simpa using hnames)
        (hp.form (by simp) (by simp))
    have htext : (Ty.struct ms l).Over Types.plainParts := (Projected.struct hms).plain_over
    obtain ⟨s', hrun, hout⟩ := runs_members (I := After T) (R := fun _ s s' => ∃ F, Outcome F s s')
      hnothing exists_outcome_trans
      (fun h hcode => exists_outcome_trans ⟨_, .note hcode _⟩ h) (fun hs h => h.elim fun _ h => hs.outcome h)
      (fun hs => ⟨hs.onward, hs.binding⟩) htext (fun m hm s hs => hmembers m hm scope s hs) [] s hs
    exact ⟨s', .succ hrun, hout, _, .succ (.const fun _ => rfl)⟩
  | @function as r l _ _ iha ihr =>
    intro p' hnames hp scope s hs
    have hpath : p'.function.Heads T D r := hp.form (by simp) (by simp)
    obtain ⟨s₁, hrun₁, F, hout₁⟩ := ends_list (fun a ha => iha a ha
      (fun b h => hbases b (.argument ha h)) p'.function (by simpa using hnames)
      (hp.form (by simp) (by simp))) scope hs
    obtain ⟨s₂, hrun₂, ⟨G, hout₂⟩, -⟩ := ihr (fun b h => hbases b (.result h)) p'.function
      (by simpa using hnames) hpath scope s₁ (hs.outcome hout₁)
    exact ⟨s₂, .succ (hrun₁.bind hrun₂), ⟨_, hout₁.trans hout₂⟩, _, .succ (.const fun _ => rfl)⟩
  | @dot b m l _ hb ih =>
    intro p' hnames hp scope s hs
    have hlayout := hbases b .here
    obtain ⟨s₁, hrun₁, ⟨F, hout₁⟩, -⟩ := ih (fun b' h => hbases b' (.dot h)) p' hnames
      (hp.form (by simp) (by simp)) scope s hs
    have hlayout₁ := hlayout.onward (hs.outcome hout₁).onward
    obtain ⟨s₂, hrun₂, G, hout₂⟩ := runs_checkDot (d := d) hlayout₁ hb.plain_over scope m l
    obtain ⟨u, -, hu⟩ := ((hlayout₁.onward hout₂.onward).memberType m l).resolves
    exact ⟨s₂, .succ (hrun₁.bind hrun₂), ⟨_, hout₁.trans hout₂⟩, u, hu⟩

/-- Following a type comes to an end: it enters only names that are not on its path. -/
theorem ends_of_heads (hT : Projecting T D) {names : Finset String}
    (hnames : ∀ q u, D q u → q ∈ names) (ht : Grounded T t) (hp : p.Heads T D t) : Ends d T p t := by
  induction hk : (names.filter (· ∉ p.names)).card using Nat.strongRecOn generalizing p t with
  | _ k ih =>
    refine ends_of_enter hT ht (fun p' id b hsame hb hdef hfresh hheads => ?_) p (fun _ => Iff.rfl) hp
    exact ih _ (hk ▸ Path.card_define_lt hsame (hnames _ _ (hT.declares hb hdef)) hfresh) (hT.grounded hb) hheads
      rfl

/-! ## Failures -/

section Failures

variable {α β : Type} {x : CheckM α} {f : α → CheckM β} {a : α} {e : Fault} {s₁ : State}

/-- A sequence fails with its first part. -/
theorem bind_fails (h : x d s = .error e s') : (x >>= f) d s = .error e s' := by
  change EStateM.bind (x d) _ s = _
  rw [EStateM.bind, h]

/-- A sequence fails with what follows its first part. -/
theorem bind_fails_next (hx : x d s = .ok a s₁) (hf : f a d s₁ = .error e s') :
    (x >>= f) d s = .error e s' := by
  change EStateM.bind (x d) _ s = _
  rw [EStateM.bind, hx]
  exact hf

/-- Work on types that fails makes checking fail. -/
theorem onTypes_fails {x : Types.TypeM α} (h : x s.types = .error e T) :
    onTypes x d s = .error e { s with types := T } := by
  unfold onTypes
  simp only [h]

end Failures

end Qll.Check

namespace Qll.Program

open Check (State CheckM Runs Outcome After Ends TypeItem check_bind_ok bind_fails bind_fails_next
  onTypes_fails)
open Source (Decl Location)
open Qll.Types (Ty Path Layout Base Grounded Projecting Marked Member)

variable {L : Int → Prop} {s s' : State}

/-- Once the names of a program are resolved and its member types can be taken, each name stands for
such a type. -/
theorem projecting_of_listed (hs : Listed True L s)
    (hgrounded : ∀ item ∈ s.typeItems, Grounded s.types item.type) (hnodup : (itemNames s).Nodup) :
    Projecting s.types (Declared s) where
  declares := declares_of_listed hs
  grounded := by
    intro id b hb
    obtain ⟨item, hitem, rfl⟩ | ⟨kind, l, hkind⟩ := provided_of_listed hs hb
    · exact hgrounded item hitem
    · exact hkind ▸ ⟨.builtin, nofun⟩
  unique := Declared.unique hnodup

/-- The definitions of types are followed one by one. -/
theorem ends_items (hT : Projecting s.types (Declared s))
    (hgrounded : ∀ item ∈ s.typeItems, Grounded s.types item.type) {items : List TypeItem}
    (hsub : ∀ item ∈ items, item ∈ s.typeItems) {s₁ : State} (hs₁ : After s.types s₁) :
    ∃ s', Runs directory (fun _ => items.forM fun item =>
        Check.kindcheck item.scope (Path.define {} item.qualified) item.type) s₁ () s' ∧
      ∃ F, Outcome F s₁ s' := by
  induction items generalizing s₁ with
  | nil => exact ⟨s₁, .const fun _ => rfl, _, .nothing (F := fun _ _ => False) (fun _ _ h => h) s₁⟩
  | cons item rest ih =>
    obtain ⟨hitem, hrest⟩ := List.forall_mem_cons.1 hsub
    have hends : Ends directory s.types (Path.define {} item.qualified) item.type :=
      Check.ends_of_heads hT (fun _ _ => Declared.mem_names) (hgrounded item hitem)
        (.define ⟨item, hitem, rfl, rfl⟩ hT.unique)
    obtain ⟨s₂, hrun₂, ⟨F, hout₂⟩, -⟩ := hends item.scope s₁ hs₁
    obtain ⟨s₃, hrun₃, G, hout₃⟩ := ih hrest (hs₁.outcome hout₂)
    exact ⟨s₃, hrun₂.limited.bind hrun₃, _, hout₂.trans hout₃⟩

/-- The stages of a program up to the resolution of its names. -/
def names (decls : List Decl) : CheckM Unit := do
  declareProgram decls
  bind

/-- The kind stage comes to an end if member types are only taken of types with finite layouts, none of
them containing itself by value, and it reports every reference that it marks. -/
theorem projections_followed {decls : List Decl}
    (hdecls : ∀ decl ∈ decls, decl.Projected True fun _ => True)
    (hnodup : (Source.declsTypeNames rootName decls).Nodup) :
    ∃ s N, (∀ n ≥ N, names decls directory (emptyState.withLimit n) = .ok () (s.withLimit n)) ∧
      itemNames s = Source.declsTypeNames rootName decls ∧
      ((∀ item ∈ s.typeItems, ∀ b, Base b item.type → Layout s.types (· ≠ Types.unsized) False b) →
        ∃ (s' : State) (N : Nat), (∀ n ≥ N, kinds decls directory (emptyState.withLimit n) = .ok () (s'.withLimit n)) ∧
          ∀ id, Marked s'.types id →
            ∃ d ∈ s'.reports, d.severity = .error ∧ d.code = .recursiveType) := by
  obtain ⟨s₀, hrun₀, hs₀, hlisted⟩ := runs_declareProgram (d := directory) hdecls
  obtain ⟨s, hrun₁, hs, hitems, hprojected⟩ := runs_bind hs₀
  have hnames : itemNames s = Source.declsTypeNames rootName decls := by
    rw [itemNames, hitems]
    exact hlisted hnodup
  have hbound : Runs directory (fun _ => names decls) emptyState () s := hrun₀.bind hrun₁
  obtain ⟨N, hN⟩ := hbound
  refine ⟨s, N, fun n hn => hN n n hn hn, hnames, fun hbases => ?_⟩
  have hgrounded (item : TypeItem) (hitem : item ∈ s.typeItems) : Grounded s.types item.type :=
    ⟨hprojected item hitem, hbases item hitem⟩
  have hall : ∀ item ∈ s.typeItems.toList, item ∈ s.typeItems := by simp
  obtain ⟨s', hrun₂, F, hout⟩ := ends_items
    (projecting_of_listed hs hgrounded (hnames ▸ hnodup)) hgrounded hall ⟨.refl _, fun _ => rfl⟩
  have hkinds : Runs directory (fun _ => kinds decls) emptyState () s' :=
    hrun₀.bind (hrun₁.bind (runs_kindcheck_of_items hs.others hrun₂ hout))
  obtain ⟨N', hN'⟩ := hkinds
  refine ⟨s', N', fun n hn => hN' n n hn hn, fun id hid => ?_⟩
  obtain ⟨e, he, hcyclic⟩ | ⟨l, hfound⟩ := (hout.marked id).1 hid
  · simp [(hs.names e (Array.mem_of_getElem? he)).1] at hcyclic
  · obtain ⟨d, hd, hseverity, hcode, -⟩ := hout.reported id l hfound
    exact ⟨d, hd, hseverity, hcode⟩

/-- A type, and another one that has a member of its member type and contains itself. -/
def projectedTypes : List Decl :=
  let name (text : String) : Source.TypeExpr := .name text somewhere
  [.type "P" [] (.struct [("x", name "byte", somewhere)] somewhere) somewhere,
    .type "Q" [] (.struct [("x", .dot (name "P") "x" somewhere, somewhere), ("rest", name "Q", somewhere)]
      somewhere) somewhere]

/-- The declarations of the example are without templates. -/
theorem projected_projectedTypes : ∀ decl ∈ projectedTypes, decl.Projected True fun _ => True := by
  intro decl hdecl
  obtain rfl | rfl : decl = _ ∨ decl = _ := by simpa [projectedTypes] using hdecl
  · exact .type (.struct (by simpa using .name))
  · refine .type (.struct ?_)
    rintro m hm
    obtain rfl | rfl : m = _ ∨ m = _ := by simpa using hm
    · exact .dot trivial .name
    · exact .name

/-- What declares the type with the member. -/
def memberItem : TypeItem :=
  { qualified := "global::P", scope := scopeOf root
    type := .struct [⟨"x", .name 0 "byte" (some somewhere), some somewhere⟩] (some somewhere) }

/-- What declares the type that uses its type. -/
def projectingItem : TypeItem :=
  { qualified := "global::Q", scope := scopeOf root
    type := .struct [⟨"x", .dot (.name 1 "P" (some somewhere)) "x" (some somewhere), some somewhere⟩,
      ⟨"rest", .name 2 "Q" (some somewhere), some somewhere⟩] (some somewhere) }

/-- The two types once they are entered. -/
def projectedDeclared : State where
  types := { names := #[{}, {}, {}] }
  spaces := #[{ name := rootName, qualified := rootName, parent := none,
                types := [("Q", projectingItem.binding), ("P", memberItem.binding)] }]
  typeItems := #[memberItem, projectingItem]

/-- The two types once their names are resolved. -/
def projectedBound : State :=
  { projectedDeclared with types := { names := #[
      { binding := some { qualified := "byte", type := .builtin .byte none } },
      { binding := some memberItem.binding }, { binding := some projectingItem.binding }] } }

/-- The two types are entered whatever the limit. -/
theorem projected_declared (n : Nat) : declareProgram projectedTypes directory (emptyState.withLimit n) =
    .ok () (projectedDeclared.withLimit n) := rfl

/-- The names of the two types are resolved whatever the limit. -/
theorem projected_bound (n : Nat) : bind directory (projectedDeclared.withLimit (n + 4)) =
    .ok () (projectedBound.withLimit (n + 4)) := rfl

/-- The types of which a member is taken have finite layouts. -/
theorem projected_layouts : ∀ item ∈ projectedBound.typeItems, ∀ b, Base b item.type →
    Layout projectedBound.types (· ≠ Types.unsized) False b := by
  intro item hitem b hb
  obtain rfl | rfl : item = memberItem ∨ item = projectingItem := by
    simpa [projectedBound, projectedDeclared] using hitem
  · cases hb with
    | member hm h =>
      obtain rfl := by simpa using hm
      nomatch h
  · cases hb with
    | member hm h =>
      obtain rfl | rfl := by simpa using hm
      · cases h with
        | here =>
          refine .name (u := memberItem.type) rfl (.struct fun m hm => ?_)
          obtain rfl := by simpa using hm
          exact .name (u := .builtin .byte none) rfl .builtin
        | dot h => nomatch h
      · nomatch h

/-- In the example checking ends and the marked names are reported. -/
theorem projections_followed_projected : ∃ (s : State) (N : Nat),
    (∀ n ≥ N, kinds projectedTypes directory (emptyState.withLimit n) = .ok () (s.withLimit n)) ∧
      ∀ id, Marked s.types id → ∃ d ∈ s.reports, d.severity = .error ∧ d.code = .recursiveType := by
  obtain ⟨s, N, hnames, -, hends⟩ := projections_followed projected_projectedTypes (by decide)
  have hbound : names projectedTypes directory (emptyState.withLimit (N + 4)) =
      .ok () (projectedBound.withLimit (N + 4)) :=
    check_bind_ok.2 ⟨(), _, projected_declared _, projected_bound N⟩
  have hsame : projectedBound.withLimit (N + 4) = s.withLimit (N + 4) := by
    rw [hnames (N + 4) (by omega), EStateM.Result.ok.injEq] at hbound
    exact hbound.2.symm
  refine hends fun item hitem b hb => ?_
  have hitems : projectedBound.typeItems = s.typeItems := congrArg (·.typeItems) hsame
  exact (projected_layouts item (hitems ▸ hitem) b hb).onward (.of_withLimit (congrArg (·.types) hsame))

/-- A struct that has a pointer to one of its own members, after which it contains itself. -/
def selfProjection : List Decl :=
  let name (text : String) : Source.TypeExpr := .name text somewhere
  [.type "S" [] (.struct [("f", .pointer (.dot (name "S") "b" somewhere) somewhere, somewhere),
      ("a", name "S", somewhere), ("b", name "byte", somewhere)] somewhere) somewhere]

/-- The members of the struct. -/
def selfProjectionMembers : List (Member Ty) :=
  let projection : Ty := .dot (.name 0 "S" (some somewhere)) "b" (some somewhere)
  [⟨"f", .pointer projection (some somewhere), some somewhere⟩,
    ⟨"a", .name 1 "S" (some somewhere), some somewhere⟩,
    ⟨"b", .name 2 "byte" (some somewhere), some somewhere⟩]

/-- What declares the struct. -/
def selfProjectionItem : TypeItem :=
  { qualified := "global::S", scope := scopeOf root
    type := .struct selfProjectionMembers (some somewhere) }

/-- The program once the struct is entered. -/
def selfProjectionDeclared : State where
  types := { names := #[{}, {}, {}] }
  spaces := #[{ name := rootName, qualified := rootName, parent := none,
                types := [("S", selfProjectionItem.binding)] }]
  typeItems := #[selfProjectionItem]

/-- The program once its names are resolved. -/
def selfProjectionBound : State :=
  { selfProjectionDeclared with types := { names := #[{ binding := some selfProjectionItem.binding },
      { binding := some selfProjectionItem.binding },
      { binding := some { qualified := "byte", type := .builtin .byte none } }] } }

/-- The struct is entered whatever the limit. -/
theorem selfProjection_declared (n : Nat) :
    declareProgram selfProjection directory (emptyState.withLimit n) =
      .ok () (selfProjectionDeclared.withLimit n) := rfl

/-- The names of the struct are resolved whatever the limit. -/
theorem selfProjection_bound (n : Nat) :
    bind directory (selfProjectionDeclared.withLimit (n + 4)) =
      .ok () (selfProjectionBound.withLimit (n + 4)) := rfl

/-- The size of the struct never comes to an end. -/
theorem selfProjection_size (k n : Nat) :
    Types.sizeWithin k selfProjectionItem.type (selfProjectionBound.types.withLimit n) =
      .error .endless (selfProjectionBound.types.withLimit n) := by
  induction k using Nat.twoStepInduction with
  | zero => rfl
  | one => rfl
  | more k ih _ =>
    change EStateM.bind (EStateM.bind (Types.sizeWithin k selfProjectionItem.type) _) _ _ = _
    rw [EStateM.bind, EStateM.bind, ih]

/-- The search for the member of the struct ends at no limit. -/
theorem selfProjection_findMember (n : Nat) :
    Types.findMember selfProjectionMembers "b" (selfProjectionBound.types.withLimit (n + 4)) =
      .error .endless (selfProjectionBound.types.withLimit (n + 4)) := by
  change EStateM.bind (Types.sizeWithin (n + 1) selfProjectionItem.type) _ _ = _
  rw [EStateM.bind, selfProjection_size]

/-- The definition of the struct is not followed to its end: its reference to itself is accepted behind
the pointer, and the member behind it is looked for. -/
theorem selfProjection_kindcheck (n : Nat) :
    Check.kindcheck (scopeOf root) (Path.define {} selfProjectionItem.qualified) selfProjectionItem.type
        directory (selfProjectionBound.withLimit (n + 4)) =
      .error .endless (selfProjectionBound.withLimit (n + 4)) := by
  let s : State := selfProjectionBound.withLimit (n + 4)
  have hdot (scope : Types.Scope) (l : Option Location) :
      Check.checkDot scope (.name 0 "S" (some somewhere)) "b" l directory s = .error .endless s := by
    have hresolve : Check.onTypes (Types.resolve (.name 0 "S" (some somewhere))) directory s =
      .ok selfProjectionItem.type s := rfl
    have herror : Check.onTypes (Types.isError selfProjectionItem.type) directory s = .ok false s := rfl
    exact bind_fails_next hresolve (bind_fails_next herror
      (bind_fails (onTypes_fails (selfProjection_findMember n))))
  have hbase (scope : Types.Scope) : Check.kindcheckWithin (n + 1) scope
      (Path.define {} selfProjectionItem.qualified).struct.pointer (.name 0 "S" (some somewhere))
      directory s = .ok () s := rfl
  have hlimit : Check.onTypes Types.limit directory s = .ok (n + 4) s := rfl
  exact bind_fails_next hlimit (bind_fails (bind_fails_next (hbase _) (hdot _ _)))

/-- So the kind stage does not come to an end. -/
theorem selfProjection_kindStage (n : Nat) :
    kindcheck directory (selfProjectionBound.withLimit (n + 4)) =
      .error .endless (selfProjectionBound.withLimit (n + 4)) := by
  let s : State := selfProjectionBound.withLimit (n + 4)
  have hget : (MonadState.get : CheckM State) directory s = .ok s s := rfl
  exact bind_fails_next hget (bind_fails (bind_fails (selfProjection_kindcheck n)))

/-- The names of such a struct are all bound, and following it never comes to an end, however far it is
followed. -/
theorem selfProjection_endless :
    (∀ n ≥ 4, names selfProjection directory (emptyState.withLimit n) =
        .ok () (selfProjectionBound.withLimit n)) ∧
      ∀ n ≥ 4, kinds selfProjection directory (emptyState.withLimit n) =
        .error .endless (selfProjectionBound.withLimit n) := by
  refine ⟨fun n hn => ?_, fun n hn => ?_⟩ <;> obtain ⟨k, rfl⟩ := Nat.exists_eq_add_of_le' hn
  · exact check_bind_ok.2 ⟨(), _, selfProjection_declared _, selfProjection_bound k⟩
  · exact bind_fails_next (selfProjection_declared _) (bind_fails_next (selfProjection_bound k)
      (selfProjection_kindStage k))

end Qll.Program
