import Qll.Check.Stmt
import Qll.Proofs.Check.World
import Qll.Proofs.Check.Written

/-!
# Values and names under check

The rules that expressions and statements share keep a state sound: what they give names only
storage that is local or recorded, and has an admitted type. A name stands for storage that was
found, or for an instance that was requested, and both are recorded.
-/

namespace Qll.Check

open Qll.Computation
open Qll.Types (Ty Vocabulary Scope Member)
open Qll.Types.Vocabulary (Keeps)
open Source (Location TypeExpr)

variable {S : Setting} {P : Prop} {c : Context} {location : Option Location}

/-! ## Values -/

/-- A checked expression names storage with a property, and its type is admitted. -/
def Setting.Yields (S : Setting) (O : Storage → Prop) (r : Checked.Expr × Ty) : Prop :=
  r.1.Over O ∧ S.vocabulary.Admits r.2

variable {O : Storage → Prop}

/-- Checking that values have an admitted type keeps the invariant. -/
theorem checks_checkValueType {t : Ty} (ht : P → S.vocabulary.Admits t) (what : String) :
    Checks S P (fun _ => True) (checkValueType c t location what) := by
  refine .seq (.types fun _ => .isError t) fun _ => .ite (.pure fun _ => trivial) ?_
  refine .seq (.types fun h => .isVoid (ht h)) fun _ => .ite (.seq .noted fun _ => .pure fun _ => trivial) ?_
  refine .seq (.types fun h => (Keeps.resolve (ht h)).drop) fun shape => ?_
  split
  · exact .seq (.textOf t) fun _ => .seq .noted fun _ => .pure fun _ => trivial
  · exact .pure fun _ => trivial

/-- Comparing admitted types keeps the invariant. -/
theorem checks_checkConvertible {got want : Ty} (hgot : P → S.vocabulary.Admits got)
    (hwant : P → S.vocabulary.Admits want) (what : String) :
    Checks S P (fun _ => True) (checkConvertible c location got want what) := by
  refine .seq (.types fun h => .isConvertible (hgot h) (hwant h)) fun _ =>
    .ite (.pure fun _ => trivial) ?_
  refine .seq (.textOf want) fun _ => .seq (.textOf got) fun _ => ?_
  exact .seq .noted fun _ => .pure fun _ => trivial

/-- A value whose type is an array gets a descriptor, unless the length is not known. -/
theorem keeps_described {e : Checked.Expr} {source target : Ty} (he : S.Yields O (e, source))
    (htarget : S.vocabulary.Admits target) (u : Ty) :
    S.vocabulary.Keeps (S.Yields O) (match u with
      | .array _ length _ =>
        return if length = Types.unsized then (e, source) else (.descriptor e length, target)
      | _ => return (e, source)) := by
  split
  · refine .pure ?_
    split
    · exact he
    · exact ⟨he.1, htarget⟩
  · exact .pure he

/-- A value is used as a value of another type. -/
theorem checks_coerce {e : Checked.Expr} {source target : Ty} (he : P → S.Yields O (e, source))
    (htarget : P → S.vocabulary.Admits target) :
    Checks S P (S.Yields O) (coerce e source target) := by
  refine .types fun h => .bind (.resolve (htarget h)) fun shape hshape => ?_
  have hkept : S.Yields O (e, source) := he h
  have hlast (u : Ty) := keeps_described hkept (htarget h) u
  split
  · refine .bind (.resolve (he h).2) fun shape hshape => ?_
    cases shape with
    | pointer element l => exact .bind (.resolve hshape) fun u _ => hlast u
    | _ => exact .bind (.pure (Q := fun _ => True) trivial) fun u _ => hlast u
  · exact .pure hkept

/-- A value that is used as one of another type is yielded with that type. -/
theorem checks_useAs {e : Checked.Expr} {got want : Ty} (he : P → S.Yields O (e, got))
    (hwant : P → S.vocabulary.Admits want) (what : String) :
    Checks S P (S.Yields O) (useAs c location e got want what) := by
  refine .seq (checks_checkConvertible (fun h => (he h).2) hwant what) fun _ => .ite ?_ (.pure he)
  exact checks_coerce he hwant

/-- Looking for the family of an admitted type keeps the invariant. -/
theorem checks_familyOf {t : Ty} (ht : P → S.vocabulary.Admits t) :
    Checks S P (fun _ => True) (familyOf t) := by
  refine .types fun h => .bind (.isError t) fun _ _ => .ite (.pure trivial) ?_
  refine .bind (.isVoid (ht h)) fun _ _ => .ite (.pure trivial) ?_
  refine .bind (.isNumeric (ht h)) fun _ _ => .ite (.pure trivial) ?_
  refine .bind (.resolve (ht h)) fun shape _ => ?_
  split <;> exact .pure trivial

/-- The elements of an admitted type have an admitted type. -/
theorem checks_elementOf {t : Ty} (ht : P → S.vocabulary.Admits t) :
    Checks S P (fun r => ∀ e ∈ r, S.vocabulary.Admits e) (elementOf? t) := by
  refine .types fun h => .bind (.resolve (ht h)) fun shape hshape => ?_
  split
  · exact .pure (by simpa using hshape)
  · refine .pure ?_
    split
    · simpa using hshape
    · simp
  · exact .pure (by simp)

/-- The words of a slice descriptor. -/
theorem admits_sliceMember {V : Vocabulary} {element : Ty} (h : V.Admits element) (name : String) :
    ∀ m ∈ sliceMember? element name, V.Admits m.type := by
  intro m hm
  unfold sliceMember? at hm
  split at hm
  · obtain rfl := Option.some.inj hm
    exact h
  split at hm
  · obtain rfl := Option.some.inj hm
    exact Vocabulary.admits_byte
  split at hm
  · obtain rfl := Option.some.inj hm
    exact Vocabulary.admits_byte
  · cases hm

/-- A member of an admitted type has an admitted type. -/
theorem checks_memberOf {t : Ty} (ht : P → S.vocabulary.Admits t) (name : String) :
    Checks S P (fun r => ∀ m ∈ r, S.vocabulary.Admits m.type) (memberOf c t name location) := by
  refine .bind (.types fun h => .resolve (ht h)) fun shape => ?_
  have hlast (found : Option MemberInfo) : Checks S
      ((P ∧ S.vocabulary.Admits shape) ∧ ∀ m ∈ found, S.vocabulary.Admits m.type)
      (fun r => ∀ m ∈ r, S.vocabulary.Admits m.type) (if found.isNone then do
        reportError c.scope location .noMember ((← textOf t) ++ " has no member " ++ name)
        return found
      else return found) :=
    .ite (.seq (.textOf t) fun _ => .failing) (.pure fun h => h.2)
  cases shape with
  | struct members l =>
    refine .bind (.types fun h => .findMember (Vocabulary.admits_struct.1 h.2) name) fun r => ?_
    cases r with
    | none => exact (hlast none).pre fun h => ⟨h.1, by simp⟩
    | some r => exact (hlast (some _)).pre fun h => ⟨h.1, by simpa using (h.2 r rfl).2⟩
  | slice element l =>
    exact (hlast (sliceMember? element name)).pre fun h => ⟨h, admits_sliceMember (Vocabulary.admits_slice.1 h.2) name⟩
  | pointer element l => exact .seq (.textOf t) fun _ => .failing
  | _ => exact (hlast none).pre fun h => ⟨h, by simp⟩

/-! ## Memory management -/

variable {w : World} {i : Nat} {R : Set String}

section Convertible

variable {T T' : Types.Store} {id : Nat} {as : List Ty} {r : Ty} {l : Option Location}

/-- Templates and function types stand for themselves. -/
theorem normalize_self {t u : Ty} (h : T.normalize t = .ok u)
    (ht : (∃ id, t = .template id) ∨ ∃ as r l, t = .function as r l) : u = t := by
  unfold Types.Store.normalize at h
  cases hlimit : T.limit with
  | zero => simp [hlimit, Types.Store.normalizeWithin] at h
  | succ n =>
    obtain ⟨id, rfl⟩ | ⟨as, r, l, rfl⟩ := ht <;>
      exact (by simpa [hlimit, Types.Store.normalizeWithin] using h.symm)

/-- Templates and function types are not the error type. -/
theorem isError_self {t : Ty} {b : Bool} (h : Types.isError t T = .ok b T')
    (ht : (∃ id, t = .template id) ∨ ∃ as r l, t = .function as r l) : b = false ∧ T = T' := by
  obtain ⟨hread, rfl⟩ := Types.read_ok.1 h
  refine ⟨?_, rfl⟩
  unfold Types.Store.isError at hread
  cases hlimit : T.limit with
  | zero => simp [hlimit, Types.Store.isErrorWithin] at hread
  | succ n =>
    rw [hlimit, Types.Store.isErrorWithin, except_bind_ok] at hread
    obtain ⟨u, hu, hread⟩ := hread
    obtain rfl := normalize_self hu ht
    obtain ⟨id, rfl⟩ | ⟨as, r, l, rfl⟩ := ht <;> exact (except_pure_ok.1 hread).symm

/-- A template can be used as no function. -/
theorem template_not_convertible {b : Bool}
    (h : Types.isConvertible (.template id) (.function as r l) T = .ok b T') : b = false := by
  simp only [Types.isConvertible, bind_ok, pure_ok] at h
  obtain ⟨n, _, hlimit, ⟨b', L⟩, _, h, rfl, rfl⟩ := h
  obtain ⟨rfl, rfl⟩ := Types.limit_ok.1 hlimit
  cases hn : T.limit with
  | zero =>
    rw [hn] at h
    exact absurd h throw_ok
  | succ n =>
    rw [hn] at h
    change Types.unifyWithin .conversion (n + 1) _ _ [] T = _ at h
    unfold Types.unifyWithin at h
    obtain ⟨a, _, hread, h⟩ := inner_lift_ok.1 h
    obtain ⟨ha, rfl⟩ := Types.read_ok.1 hread
    obtain ⟨b, _, hread, h⟩ := inner_lift_ok.1 h
    obtain ⟨hb, rfl⟩ := Types.read_ok.1 hread
    obtain rfl := normalize_self ha (.inl ⟨id, rfl⟩)
    obtain rfl := normalize_self hb (.inr ⟨as, r, l, rfl⟩)
    rw [if_neg (by simp [Ty.same])] at h
    obtain ⟨_, _, herror, h⟩ := inner_lift_ok.1 h
    obtain ⟨rfl, rfl⟩ := isError_self herror (.inl ⟨id, rfl⟩)
    rw [if_neg Bool.false_ne_true] at h
    obtain ⟨_, _, herror, h⟩ := inner_lift_ok.1 h
    obtain ⟨rfl, rfl⟩ := isError_self herror (.inr ⟨as, r, l, rfl⟩)
    rw [if_neg Bool.false_ne_true] at h
    obtain ⟨_, _, hstrip, h⟩ := inner_lift_ok.1 h
    obtain ⟨rfl, rfl⟩ := pure_ok.1 hstrip
    obtain ⟨_, _, hstrip, h⟩ := inner_lift_ok.1 h
    obtain ⟨rfl, rfl⟩ := pure_ok.1 hstrip
    rw [if_neg (by decide), if_neg (by simp [Ty.isNamed])] at h
    obtain ⟨_, _, hdecay, h⟩ := inner_lift_ok.1 h
    obtain ⟨rfl, rfl⟩ := pure_ok.1 hdecay
    exact (inner_pure_ok.1 h).1.symm

end Convertible

/-- The function by which memory is managed is recorded. -/
theorem checks_heapFunction (hc : c.body = some i) (name : String) {as : List Ty} {r : Ty}
    {l : Option Location} (hwant : w.vocabulary.Admits (.function as r l)) :
    Checks (w.within (some i) R) P (fun r => ∀ st ∈ r, w.Recorded R st)
      (heapFunction c name (.function as r l) location) := by
  refine .bind (checks_lookup hc _ location) fun found => ?_
  cases found with
  | none => exact .pure (by simp)
  | some st =>
    -- A template fits no function type, so what fits is a declaration of its own.
    have hlast (fits : Bool) : Checks (w.within (some i) R) (fits = true → w.Recorded R st)
        (fun r => ∀ st ∈ r, w.Recorded R st) (if fits then pure (some st) else do
          reportError c.scope location .mismatch
            ("global::" ++ name ++ " must be a function of type " ++
              (← textOf (.function as r l)) ++ ", found " ++ (← textOf st.type))
          return none) := by
      split
      · next hfits => exact .pure fun h st' hst' => Option.some.inj hst' ▸ h hfits
      · exact .seq (.textOf _) fun _ => .seq (.textOf _) fun _ => .failing
    simp only
    split
    · refine .bind (Q := fun fits => fits = true → w.Recorded R st) (fun s b s' hrun => ?_)
        fun fits => (hlast fits).pre And.right
      refine (Checks.types (fun h => Keeps.isConvertible (h.2 st rfl).type hwant) s b s' hrun).imp_right
        fun hkeeps h hs ahead => (hkeeps h hs ahead).imp_right fun _ hb hstatic => ?_
      obtain ⟨hdeclared, hrecorded⟩ := (h.2 st rfl).static hstatic
      refine ⟨hrecorded, hdeclared.node.resolve_right fun ⟨_, _, id, hid⟩ => ?_⟩
      obtain ⟨types, hconvertible, -⟩ := onTypes_ok hrun
      rw [hid] at hconvertible
      exact absurd hb (by simp [template_not_convertible hconvertible])
    · exact .bind (Q := fun fits => fits = true → w.Recorded R st) (.pure (by simp))
        fun fits => (hlast fits).pre And.right

/-! ## Names -/

/-- Storage of an instance of a template function. -/
structure World.Provided (w : World) (st : Storage) : Prop where
  type : w.vocabulary.Admits st.type
  qualified : st.qualified ≠ ""
  node : st.qualified ∈ w.nodes

/-- Every instance that can be requested is among the declarations in the end. -/
def World.Provides (w : World) (instances : Instances) : Prop :=
  ∀ (i : Nat) (R : Set String) (c : Context) (item : Nat) (arguments : List Ty)
    (location : Option Location),
    Checks (w.within (some i) R) (∀ a ∈ arguments, w.vocabulary.Admits a)
      (fun r => ∀ st ∈ r, w.Provided st) (instances c item arguments location)

/-- What a name in the body under check stands for, with its type. -/
abbrev World.Yields (w : World) (R : Set String) (r : Checked.Expr × Ty) : Prop :=
  (w.within none R).Yields (w.Recorded R) r

/-- A name that is not resolved is a value of the error type, which names no storage. -/
theorem yields_unresolvedName (name : String) : w.Yields R (unresolvedName name) :=
  ⟨trivial, Vocabulary.admits_error⟩

variable {instances : Instances}

/-- An instance that is used is among the declarations in the end, and is recorded. -/
theorem checks_useInstance (hinstances : w.Provides instances) (hc : c.body = some i)
    {arguments : List Ty} (harguments : P → ∀ a ∈ arguments, w.vocabulary.Admits a) (name : String)
    (item : Nat) : Checks (w.within (some i) R) P (w.Yields R)
      (useInstance instances c name location item arguments) := by
  have hany : Checks (w.within (some i) R) P (fun _ => True)
      (arguments.anyM fun a => onTypes (Types.isError a)) :=
    .anyM fun a _ => .types fun _ => .isError a
  refine .seq hany fun _ => .ite (.pure fun _ => yields_unresolvedName name) ?_
  refine .bind ((hinstances i R c item arguments location).pre harguments) fun found => ?_
  cases found with
  | none => exact .pure fun _ => yields_unresolvedName name
  | some st =>
    refine .bind (checks_refer hc st.qualified) fun _ => .pure fun h => ?_
    have hst := h.1.2 st rfl
    exact ⟨fun _ => ⟨h.2 hst.qualified, hst.node⟩, hst.type⟩

/-- A template function has its entry, so what stands for no template is recorded. -/
theorem checks_templateOf {j : Option Nat} {st : Storage} (hst : P → w.Found R st) :
    Checks (w.within j R) P (fun r => (r = none → w.Recorded R st) ∧
      ∀ p ∈ r, w.vocabulary.template p.2) (templateOf? st) := by
  unfold templateOf?
  split
  · next id htype hkind =>
    refine .get fun s => .pure fun h => ⟨fun hnone hstatic => ?_, fun p hp => ?_⟩
    · obtain ⟨hdeclared, hrecorded⟩ := (hst h.1).static hstatic
      refine ⟨hrecorded, hdeclared.node.resolve_right fun ⟨htemplate, _⟩ => ?_⟩
      have := h.2.1.templates _ htemplate
      simp_all
    · obtain ⟨item, -, rfl⟩ := Option.map_eq_some_iff.1 hp
      have := (hst h.1).type
      rwa [htype] at this
  · next hother =>
    refine .pure fun h => ⟨fun _ hstatic => ?_, by simp⟩
    obtain ⟨hdeclared, hrecorded⟩ := (hst h).static hstatic
    refine ⟨hrecorded, hdeclared.node.resolve_right fun ⟨_, hkind, id, hid⟩ => ?_⟩
    exact hother id hid hkind

/-- What a list of choices gives, each of them gave. -/
theorem exists_of_mapM {α β : Type} {f : α → Option β} {l : List α} {bs : List β}
    (h : l.mapM f = some bs) {b : β} (hb : b ∈ bs) : ∃ a ∈ l, f a = some b := by
  induction l generalizing bs with
  | nil =>
    obtain rfl : [] = bs := by simpa using h
    cases hb
  | cons a l ih =>
    simp only [List.mapM_cons, Option.bind_eq_bind, Option.bind_eq_some_iff, Option.pure_def,
      Option.some.injEq] at h
    obtain ⟨c, hc, cs, hcs, rfl⟩ := h
    obtain rfl | hb := List.mem_cons.1 hb
    · exact ⟨a, by simp, hc⟩
    · obtain ⟨a', ha', hrun⟩ := ih hcs hb
      exact ⟨a', by simp [ha'], hrun⟩

/-- What variables are bound to is admitted. -/
theorem checks_boundTypes {j : Option Nat} (vars : List Nat) :
    Checks (w.within j R) P (fun r => ∀ ts ∈ r, ∀ t ∈ ts, w.vocabulary.Admits t)
      (boundTypes? vars) := by
  refine .get fun s => .pure fun h ts hts t ht => ?_
  obtain ⟨v, -, hv⟩ := exists_of_mapM hts ht
  split at hv
  · cases hv
  · next hbound =>
    split at hv
    · cases hv
    · exact Option.some.inj hv ▸ Vocabulary.admits_var
  · next hbound => exact Option.some.inj hv ▸ h.2.1.fits.bound hbound

/-- Type arguments that are inferred from what is expected are admitted. -/
theorem checks_inferFromHint {j : Option Nat} {template : Nat} {hint : Ty}
    (htemplate : P → w.vocabulary.template template) (hhint : P → w.vocabulary.Admits hint) :
    Checks (w.within j R) P (fun r => ∀ ts ∈ r, ∀ t ∈ ts, w.vocabulary.Admits t)
      (inferFromHint? template hint) := by
  refine .bind (.types fun h => .freshBody (htemplate h)) fun body => ?_
  refine .seq (.types fun h => .isConvertible h.2 (hhint h.1)) fun _ => .ite ?_ (.pure (by simp))
  exact checks_boundTypes body.2

/-- Checked type arguments are admitted. -/
theorem checks_checkTypeArguments : ∀ arguments : List TypeExpr,
    Checks S (S.vocabulary.Scopes c.scope ∧ S.vocabulary.AcceptsAll (Source.typesNames arguments))
      (fun ts => ∀ t ∈ ts, S.vocabulary.Admits t) (checkTypeArguments c arguments)
  | [] => .pure (by simp)
  | a :: rest => by
    simp only [Source.typesNames, Vocabulary.acceptsAll_append]
    refine .bind ((checks_checkWritten a).pre fun h => ⟨h.1, h.2.1⟩) fun t => ?_
    refine .seq (checks_checkValueType And.right _) fun usable => ?_
    refine .bind ((checks_checkTypeArguments rest).pre fun h => ⟨h.1.1, h.1.2.2⟩) fun ts => ?_
    refine .pure fun h => ?_
    simp only [List.forall_mem_cons]
    refine ⟨?_, h.2⟩
    split
    · exact h.1.2
    · exact Vocabulary.admits_error

/-- A name with type arguments yields the instance it stands for. -/
theorem checks_checkAppliedName (hinstances : w.Provides instances) (hc : c.body = some i)
    {st : Storage} {arguments : List TypeExpr} (hst : P → w.Found R st)
    (hnames : P → w.vocabulary.Scopes c.scope ∧
      w.vocabulary.AcceptsAll (Source.typesNames arguments)) (name : String) :
    Checks (w.within (some i) R) P (w.Yields R)
      (checkAppliedName instances c name arguments location st) := by
  refine .bind (checks_templateOf hst) fun found => ?_
  cases found with
  | none => exact .failing
  | some found =>
    refine .bind ((checks_checkTypeArguments arguments).pre fun h => hnames h.1) fun types => ?_
    refine .seq (.types fun _ => .templateRead found.2) fun entry => .ite .failing ?_
    exact checks_useInstance hinstances hc (fun h => h.2) name found.1

/-- A template that is used as a value is instantiated if its arguments are known; without them the
run is doomed. -/
theorem checks_useInferred {st : Storage} (hinstances : w.Provides instances) (hc : c.body = some i)
    (name : String) (item : Nat) (inferred : Option (List Ty)) :
    Checks (w.within (some i) R) (∀ ts ∈ inferred, ∀ t ∈ ts, w.vocabulary.Admits t) (w.Yields R)
      (match inferred with
        | some arguments => useInstance instances c name location item arguments
        | none => do
          postpone (.bareTemplate c.scope name location)
          return resolvedName name st) := by
  cases inferred with
  | some arguments => exact checks_useInstance hinstances hc (fun h => h arguments rfl) name item
  | none => exact .bind (checks_bareTemplate _ _ _) fun _ => .pure fun h => h.2.elim

/-- A name without type arguments yields what it stands for. -/
theorem checks_checkBareName (hinstances : w.Provides instances) (hc : c.body = some i)
    {st : Storage} {hint : Option Ty} (hst : P → w.Found R st)
    (hhint : P → ∀ t ∈ hint, w.vocabulary.Admits t) (name : String) :
    Checks (w.within (some i) R) P (w.Yields R)
      (checkBareName instances c name location st hint) := by
  refine .bind (checks_templateOf hst) fun found => ?_
  cases found with
  | none =>
    have hresolved {Q : Prop} : Checks (w.within (some i) R)
        (Q ∧ P ∧ w.Recorded R st) (w.Yields R) (pure (resolvedName name st)) :=
      .pure fun h => ⟨h.2.2, (hst h.2.1).type⟩
    cases htype : st.type with
    | var v =>
      refine .get fun s => .ite .failing (hresolved.pre fun h => ⟨trivial, h.1.1, h.1.2.1 rfl⟩)
    | _ => exact hresolved.pre fun h => ⟨trivial, h.1, h.2.1 rfl⟩
  | some found =>
    cases hint with
    | none => exact (checks_useInferred hinstances hc name found.1 none).pre fun _ => by simp
    | some t =>
      refine .bind (checks_inferFromHint (fun h => h.2.2 found rfl) fun h => hhint h.1 t rfl)
        fun inferred => (checks_useInferred hinstances hc name found.1 inferred).pre And.right

/-- A name that was found yields what it stands for. -/
theorem checks_checkFoundName (hinstances : w.Provides instances) (hc : c.body = some i)
    {st : Storage} {arguments : List TypeExpr} {hint : Option Ty} (hst : P → w.Found R st)
    (hnames : P → w.vocabulary.Scopes c.scope ∧
      w.vocabulary.AcceptsAll (Source.typesNames arguments))
    (hhint : P → ∀ t ∈ hint, w.vocabulary.Admits t) (name : String) :
    Checks (w.within (some i) R) P (w.Yields R)
      (checkFoundName instances c name arguments location st hint) :=
  .ite (checks_checkBareName hinstances hc hst hhint name)
    (checks_checkAppliedName hinstances hc hst hnames name)

/-- A name yields what it stands for. -/
theorem checks_checkName (hinstances : w.Provides instances) (hc : c.body = some i)
    {arguments : List TypeExpr} {hint : Option Ty}
    (hnames : P → w.vocabulary.Scopes c.scope ∧
      w.vocabulary.AcceptsAll (Source.typesNames arguments))
    (hhint : P → ∀ t ∈ hint, w.vocabulary.Admits t) (name : String) :
    Checks (w.within (some i) R) P (w.Yields R)
      (checkName instances c name arguments location hint) := by
  refine .bind (checks_lookup hc name location) fun found => ?_
  cases found with
  | none => exact .pure fun _ => yields_unresolvedName name
  | some st =>
    exact checks_checkFoundName hinstances hc (fun h => h.2 st rfl) (fun h => hnames h.1)
      (fun h => hhint h.1) name

/-- Inferred type arguments are admitted. -/
theorem checks_inferredArguments {j : Option Nat} (name : String) : ∀ vars : List Nat,
    Checks (w.within j R) P (fun r => ∀ ts ∈ r, ∀ t ∈ ts, w.vocabulary.Admits t)
      (inferredArguments c name location vars)
  | [] => .pure (by simp)
  | v :: rest => by
    refine .get fun s => ?_
    cases ht : s.types.bound? v with
    | none =>
      simp only [ht]
      exact .failing
    | some t =>
      simp only [ht]
      refine .bind ((checks_inferredArguments name rest).pre And.left) fun found => .pure fun h ts hts => ?_
      obtain ⟨types, htypes, rfl⟩ := Option.map_eq_some_iff.1 hts
      simpa using ⟨h.1.2.1.fits.bound ht, h.2 types htypes⟩

/-- The template is instantiated with the arguments that the variables of a call stand for. -/
theorem checks_useArgumentsOf (hinstances : w.Provides instances) (hc : c.body = some i)
    (name : String) (item : Nat) (vars : List Nat) :
    Checks (w.within (some i) R) P (w.Yields R) (do
      match ← inferredArguments c name location vars with
      | none => return unresolvedName name
      | some types => useInstance instances c name location item types) := by
  refine .bind (checks_inferredArguments name vars) fun found => ?_
  cases found with
  | none => exact .pure fun _ => yields_unresolvedName name
  | some types => exact checks_useInstance hinstances hc (fun h => h.2 types rfl) name item

/-- A template function with inferred arguments yields the instance it stands for. -/
theorem checks_checkInferredName (hinstances : w.Provides instances) (hc : c.body = some i)
    {params : List Ty} {result : Ty} {hint : Option Ty} (hresult : P → w.vocabulary.Admits result)
    (hhint : P → ∀ t ∈ hint, w.vocabulary.Admits t) (name : String) (item given : Nat)
    (vars : List Nat) (failed : Bool) : Checks (w.within (some i) R) P (w.Yields R)
      (checkInferredName instances c name location item vars params result given failed hint) := by
  unfold checkInferredName
  refine .ite .failing (.ite (.pure fun _ => yields_unresolvedName name) ?_)
  cases hint with
  | none => exact checks_useArgumentsOf hinstances hc name item vars
  | some t =>
    refine .seq (.discard (.types fun h => .isConvertible (hresult h) (hhint h t rfl)))
      fun _ => checks_useArgumentsOf hinstances hc name item vars

end Qll.Check
