import Qll.Proofs.Types.Definite

/-!
# Opening a pair of types

A comparison of two types opens the pair: what stands at the heads is compared at once, and what is left
are pairs of parts. A pair of names is opened only if it was not written down before. In a definite store
every pair of fixed types is opened in finitely many steps, and a comparison goes on with what is left.
-/

namespace Qll.Types

open Qll.Computation
open Source (Location)

/-! ## What becomes a slice -/

/-- The members of a struct laid out like a slice descriptor, and the element type. -/
inductive Describes (T : Store) : List (Member Ty) → Ty → Prop
  | mk {address length capacity : Member Ty} {e l l' l''}
      (hnames : address.name = "pointer" ∧ length.name = "length" ∧ capacity.name = "capacity")
      (haddress : Bares T address.type (.pointer e l)) (hlength : Bares T length.type (.builtin .byte l'))
      (hcapacity : Bares T capacity.type (.builtin .byte l'')) : Describes T [address, length, capacity] e

/-- Shapes of different forms, one of which can be used as the other if the elements can. -/
inductive Decays (T : Store) : Ty → Ty → Ty × Ty → Prop
  | pointer {p l e n l' w l''} (h : Bares T p (.array e n l')) (hn : n ≠ unsized) :
      Decays T (.pointer p l) (.slice w l'') (e, w)
  | array {e n l w l'} (hn : n ≠ unsized) : Decays T (.array e n l) (.slice w l') (e, w)
  | descriptor {ms l e w l'} (h : Describes T ms e) : Decays T (.struct ms l) (.slice w l') (e, w)
  | record {e l ms l' w} (h : Describes T ms w) : Decays T (.slice e l) (.struct ms l') (e, w)

/-- What a type leads to at its head is one type. -/
theorem Bares.unique {T : Store} {t u u' : Ty} (h : Bares T t u) (h' : Bares T t u') : u = u' :=
  Except.ok.inj (Settles.unique h h')

section Elements

variable {M : Prop} {T : Store}

/-- It is settled whether members are laid out like a slice descriptor. -/
theorem Definite.sliceShape (hT : Definite M T) {ms : List (Member Ty)} (hms : ∀ m ∈ ms, Fixed M T m.type) :
    ∃ r, Settles (fun _ => sliceShape? ms) T (.ok r) ∧ ∀ e, e ∈ r ↔ Describes T ms e := by
  have hnone {ms : List (Member Ty)} (h : Settles (fun _ => sliceShape? ms) T (.ok none))
      (hnot : ∀ e, ¬ Describes T ms e) :
      ∃ r, Settles (fun _ => sliceShape? ms) T (.ok r) ∧ ∀ e, e ∈ r ↔ Describes T ms e :=
    ⟨none, h, fun e => ⟨nofun, fun h => absurd h (hnot e)⟩⟩
  match ms with
  | [] | [_] | [_, _] | _ :: _ :: _ :: _ :: _ => exact hnone (.const fun _ => rfl) nofun
  | [address, length, capacity] =>
    by_cases hnames : address.name ≠ "pointer" ∨ length.name ≠ "length" ∨ capacity.name ≠ "capacity"
    · refine hnone ?_ ?_
      · simp only [sliceShape?, if_pos hnames]
        exact .const fun _ => rfl
      · rintro e ⟨h, -⟩
        simp [h.1, h.2.1, h.2.2] at hnames
    obtain ⟨u, hu, -⟩ := hT.bares (hms address (by simp))
    obtain ⟨u', hu', -⟩ := hT.bares (hms length (by simp))
    obtain ⟨u'', hu'', -⟩ := hT.bares (hms capacity (by simp))
    have hcalled : address.name = "pointer" ∧ length.name = "length" ∧ capacity.name = "capacity" := by
      simpa only [not_or, not_not] using hnames
    by_cases haddress : ∃ e l, u = .pointer e l
    · obtain ⟨e, l, rfl⟩ := haddress
      by_cases hlength : ∃ l', u' = .builtin .byte l'
      · obtain ⟨l', rfl⟩ := hlength
        by_cases hcapacity : ∃ l'', u'' = .builtin .byte l''
        · obtain ⟨l'', rfl⟩ := hcapacity
          refine ⟨some e, ?_, fun e' => ⟨?_, ?_⟩⟩
          · simp only [sliceShape?, if_neg hnames]
            exact hu.bind (hu'.bind (hu''.bind (.const fun _ => rfl)))
          · rintro ⟨⟩
            exact .mk hcalled hu hu' hu''
          · rintro ⟨-, h, -, -⟩
            cases h.unique hu
            rfl
        · refine hnone ?_ ?_
          · simp only [sliceShape?, if_neg hnames]
            refine hu.bind (hu'.bind (hu''.bind (.const fun _ => ?_)))
            split
            · exact absurd ⟨_, rfl⟩ hcapacity
            · rfl
          · rintro e' ⟨-, -, -, h⟩
            exact hcapacity ⟨_, hu''.unique h⟩
      · refine hnone ?_ ?_
        · simp only [sliceShape?, if_neg hnames]
          refine hu.bind (hu'.bind (.const fun _ => ?_))
          split
          · exact absurd ⟨_, rfl⟩ hlength
          · rfl
        · rintro e' ⟨-, -, h, -⟩
          exact hlength ⟨_, hu'.unique h⟩
    · refine hnone ?_ ?_
      · simp only [sliceShape?, if_neg hnames]
        refine hu.bind (.const fun _ => ?_)
        split
        · exact absurd ⟨_, _, rfl⟩ haddress
        · rfl
      · rintro e' ⟨-, h, -, -⟩
        exact haddress ⟨_, _, hu.unique h⟩

/-- It is settled whether one shape becomes the other, and which elements are compared then. -/
theorem Definite.decayElements (hT : Definite M T) {a b : Ty} (ha : Fixed M T a) (hb : Fixed M T b) :
    ∃ r, Settles (fun _ => decayElements? a b) T (.ok r) ∧ ∀ p, p ∈ r ↔ Decays T a b p := by
  by_cases hslice : ∃ w l', b = .slice w l'
  · obtain ⟨w, l', rfl⟩ := hslice
    have hnone {a : Ty} (h : Settles (fun _ => decayElements? a (.slice w l')) T (.ok none))
        (hnot : ∀ p, ¬ Decays T a (.slice w l') p) :
        ∃ r, Settles (fun _ => decayElements? a (.slice w l')) T (.ok r) ∧
          ∀ p, p ∈ r ↔ Decays T a (.slice w l') p :=
      ⟨none, h, fun p => ⟨fun h => (by cases h), fun h => absurd h (hnot p)⟩⟩
    cases ha with
    | @pointer p l hp =>
      obtain ⟨u, hu, -⟩ := hT.bares hp
      by_cases harray : ∃ e n l'', u = .array e n l'' ∧ n ≠ unsized
      · obtain ⟨e, n, l'', rfl, hn⟩ := harray
        refine ⟨some (e, w), hu.bind (.const fun _ => ?_), fun q => ⟨?_, ?_⟩⟩
        · simp [if_neg hn, unchanged]
        · rintro ⟨⟩
          exact .pointer hu hn
        · intro h
          cases h with
          | pointer h =>
            cases h.unique hu
            rfl
      · refine hnone (hu.bind (.const fun _ => ?_)) ?_
        · split
          · split
            · rfl
            · exact absurd ⟨_, _, _, rfl, ‹_›⟩ harray
          · rfl
        · intro q h
          cases h with
          | pointer h hn => exact harray ⟨_, _, _, hu.unique h, hn⟩
    | @array e n l _ he =>
      by_cases hn : n = unsized
      · refine hnone (.const fun _ => ?_) ?_
        · simp only [decayElements?, if_pos hn]
          rfl
        · intro q h
          cases h with
          | array hne => exact hne hn
      · refine ⟨some (e, w), .const fun _ => ?_, fun q => ⟨?_, ?_⟩⟩
        · simp only [decayElements?, if_neg hn]
          rfl
        · rintro ⟨⟩
          exact .array hn
        · intro h
          cases h
          rfl
    | @struct ms l hms =>
      obtain ⟨r, hr, hdescribes⟩ := hT.sliceShape hms
      refine ⟨r.map fun e => (e, w), hr.bind (.const fun _ => rfl), fun q => ⟨fun hq => ?_, fun h => ?_⟩⟩
      · obtain ⟨e, he, rfl⟩ := Option.map_eq_some_iff.1 hq
        exact .descriptor ((hdescribes e).1 he)
      · cases h with
        | descriptor h => exact Option.map_eq_some_iff.2 ⟨_, (hdescribes _).2 h, rfl⟩
    | _ => exact hnone (.const fun _ => rfl) fun p h => by cases h
  · by_cases hrecord : ∃ e l ms l', a = .slice e l ∧ b = .struct ms l'
    · obtain ⟨e, l, ms, l', rfl, rfl⟩ := hrecord
      cases hb with
      | struct hms =>
        obtain ⟨r, hr, hdescribes⟩ := hT.sliceShape hms
        refine ⟨r.map fun w => (e, w), hr.bind (.const fun _ => rfl), fun q => ⟨fun hq => ?_, fun h => ?_⟩⟩
        · obtain ⟨w, hw, rfl⟩ := Option.map_eq_some_iff.1 hq
          exact .record ((hdescribes w).1 hw)
        · cases h with
          | record h => exact Option.map_eq_some_iff.2 ⟨_, (hdescribes _).2 h, rfl⟩
    · refine ⟨none, .const fun _ => ?_, fun q => ⟨fun h => (by cases h), fun h => ?_⟩⟩
      · unfold decayElements?
        split
        · exact absurd ⟨_, _, rfl⟩ hslice
        · exact absurd ⟨_, _, rfl⟩ hslice
        · exact absurd ⟨_, _, rfl⟩ hslice
        · exact absurd ⟨_, _, _, _, rfl, rfl⟩ hrecord
        · rfl
      · cases h with
        | record => exact absurd ⟨_, _, _, _, rfl, rfl⟩ hrecord
        | _ => exact absurd ⟨_, _, rfl⟩ hslice

end Elements

/-! ## Parts -/

/-- What a type is made of is mentioned in every store. -/
theorem Mentions.of_empty {t u : Ty} (h : Mentions {} t u) (T : Store) : Mentions T t u := by
  cases h with
  | pointer => exact .pointer
  | slice => exact .slice
  | array => exact .array
  | member hm => exact .member hm
  | argument ha => exact .argument ha
  | result => exact .result
  | base => exact .base
  | name h | «instance» h | bound h => simp [Store.binding?, Store.bound?] at h

/-- What a type is made of is smaller. -/
theorem Mentions.sizeOf_lt {t u : Ty} (h : Mentions {} t u) : sizeOf u < sizeOf t := by
  cases h with
  | pointer | slice | array | result | base =>
    simp
    omega
  | @member ms l m hm =>
    have hlt := List.sizeOf_lt_of_mem hm
    obtain ⟨name, type, location⟩ := m
    simp only [Member.mk.sizeOf_spec, Ty.struct.sizeOf_spec] at hlt ⊢
    omega
  | argument ha =>
    have hlt := List.sizeOf_lt_of_mem ha
    simp only [Ty.function.sizeOf_spec]
    omega
  | name h | «instance» h | bound h => simp [Store.binding?, Store.bound?] at h

/-- Whether pairs agree, from the left, up to the first that does not. A missing pair stands for a
difference. -/
def agreeEach (agree : Ty → Ty → UnifyM Bool) : List (Option (Ty × Ty)) → UnifyM Bool
  | [] => return true
  | none :: _ => return false
  | some (a, b) :: rest => do
    if ← agree a b then agreeEach agree rest else return false

/-- What is compared where two types meet that are not resolved any further. -/
def partsOf (T : Store) : Ty → Ty → List (Option (Ty × Ty))
  | .builtin kind _, .builtin kind' _ => if kind = kind' then [] else [none]
  | .name id _ _, .name id' _ _ =>
    if (T.binding? id).map (·.qualified) = (T.binding? id').map (·.qualified) then [] else [none]
  | .pointer e _, .pointer e' _ => [some (e, e')]
  | .slice e _, .slice e' _ => [some (e, e')]
  | .array e n _, .array e' n' _ => if n = n' then [some (e, e')] else [none]
  | .struct ms _, .struct ms' _ =>
    if ms.length = ms'.length then
      List.zipWith (fun m m' => if m.name = m'.name then some (m.type, m'.type) else none) ms ms'
    else [none]
  | .function as r _, .function as' r' _ =>
    if as.length = as'.length then List.zipWith (fun a' a => some (a', a)) as' as ++ [some (r, r')]
    else [none]
  | _, _ => [none]

section Parts

variable {agree : Ty → Ty → UnifyM Bool}

/-- The last pair decides. -/
theorem agreeEach_single (p : Ty × Ty) : agreeEach agree [some p] = agree p.1 p.2 := by
  change (agree p.1 p.2 >>= fun r => if r then pure true else pure false) = _
  have hif (r : Bool) : (if r then pure true else pure false : UnifyM Bool) = pure r := by cases r <;> rfl
  simp only [hif, bind_pure]

/-- Lists of pairs agree one behind the other if the first agrees and then the second does. -/
theorem agreeEach_append (ps qs : List (Option (Ty × Ty))) : agreeEach agree (ps ++ qs) =
    agreeEach agree ps >>= fun r => if r then agreeEach agree qs else pure false := by
  induction ps with
  | nil => simp [agreeEach]
  | cons p ps ih =>
    cases p with
    | none => simp [agreeEach]
    | some p =>
      simp only [List.cons_append, agreeEach, ih, bind_assoc]
      refine bind_congr fun r => ?_
      cases r <;> simp

/-- Lists of one length. -/
theorem allAgree_eq {as bs : List Ty} (h : as.length = bs.length) :
    allAgree agree as bs = agreeEach agree (List.zipWith (fun a b => some (a, b)) as bs) := by
  induction as generalizing bs with
  | nil =>
    cases bs with
    | nil => rfl
    | cons => cases h
  | cons a as ih =>
    cases bs with
    | nil => cases h
    | cons b bs =>
      simp only [allAgree, List.zipWith_cons_cons, agreeEach, ih (Nat.succ.inj h)]

/-- Members, as many on either side. -/
theorem membersAgree_eq {ms ns : List (Member Ty)} (h : ms.length = ns.length) :
    membersAgree agree ms ns = agreeEach agree (List.zipWith
      (fun m n => if m.name = n.name then some (m.type, n.type) else none) ms ns) := by
  induction ms generalizing ns with
  | nil =>
    cases ns with
    | nil => rfl
    | cons => cases h
  | cons m ms ih =>
    cases ns with
    | nil => cases h
    | cons n ns =>
      by_cases hname : m.name = n.name
      · simp only [membersAgree, List.zipWith_cons_cons, agreeEach, ih (Nat.succ.inj h), hname, ne_eq,
          not_true_eq_false, ↓reduceIte]
      · simp only [membersAgree, List.zipWith_cons_cons, agreeEach, ne_eq, hname, not_false_eq_true,
          ↓reduceIte]

/-- What follows a reading that gives a value. -/
theorem inner_lift_run {α β : Type} {x : TypeM α} {a : α} {S S' : Store} (h : x S = .ok a S')
    (f : α → UnifyM β) (L : List (String × String)) :
    ((liftM x : UnifyM α) >>= f) L S = f a L S' := by
  change EStateM.bind (EStateM.bind x fun a => pure (a, L)) (fun p => f p.1 p.2) S = _
  rw [EStateM.bind, EStateM.bind, h]
  rfl

/-- Whether two shapes agree in their parts is whether the pairs of parts agree. -/
theorem partsAgree_shapes {a b : Ty} (ha : a.IsShape) (hb : b.IsShape) (T : Store) :
    partsAgree agree a b = agreeEach agree (partsOf T a b) := by
  cases a <;> try exact absurd ha id
  all_goals cases b <;> try exact absurd hb id
  case builtin.builtin kind _ kind' _ =>
    by_cases h : kind = kind'
    · subst h
      simp [partsAgree, partsOf, agreeEach]
    · simp [partsAgree, partsOf, agreeEach, h, beq_eq_false_iff_ne.2 h]
  case pointer.pointer => simp [partsAgree, partsOf, agreeEach_single]
  case slice.slice => simp [partsAgree, partsOf, agreeEach_single]
  case array.array e n _ e' n' _ =>
    by_cases h : n = n'
    · simp [partsAgree, partsOf, agreeEach_single, h]
    · simp [partsAgree, partsOf, agreeEach, h]
  case struct.struct ms _ ms' _ =>
    by_cases h : ms.length = ms'.length
    · simp [partsAgree, partsOf, h, membersAgree_eq h]
    · simp [partsAgree, partsOf, agreeEach, h]
  case function.function as r _ as' r' _ =>
    by_cases h : as.length = as'.length
    · simp [partsAgree, partsOf, h, allAgree_eq h.symm, agreeEach_append, agreeEach_single]
    · simp [partsAgree, partsOf, agreeEach, h]
  all_goals rfl

/-- Whether two names that stand for no parameters agree is whether they are called the same. -/
theorem partsAgree_names {T : Store} {id id' : Nat} {b b' : Binding} (hb : T.binding? id = some b)
    (hvar : ∀ v, b.type ≠ .var v) (hb' : T.binding? id' = some b') (hvar' : ∀ v, b'.type ≠ .var v)
    (text text' : String) (l l' : Option Location) (L : List (String × String)) (m : Nat) :
    partsAgree agree (.name id text l) (.name id' text' l') L (T.withLimit m) =
      agreeEach agree (partsOf T (.name id text l) (.name id' text' l')) L (T.withLimit m) := by
  refine (inner_lift_run (read_ok.2 ⟨nameText_declared (T := T.withLimit m) hb hvar _ text, rfl⟩) _ L).trans ?_
  refine (inner_lift_run (read_ok.2 ⟨nameText_declared (T := T.withLimit m) hb' hvar' _ text', rfl⟩) _ L).trans ?_
  by_cases h : b.qualified = b'.qualified
  · simp [partsOf, agreeEach, hb, hb', h]
  · simp [partsOf, agreeEach, hb, hb', h, beq_eq_false_iff_ne.2 h]

/-- Whether fixed types agree in their parts is whether the pairs of parts agree. -/
theorem Definite.partsAgree {M : Prop} {T : Store} (hT : Definite M T) {a b : Ty} (ha : Fixed M T a)
    (hb : Fixed M T b) (L : List (String × String)) (m : Nat) :
    Types.partsAgree agree a b L (T.withLimit m) = agreeEach agree (partsOf T a b) L (T.withLimit m) := by
  by_cases hshapes : a.IsShape ∧ b.IsShape
  · rw [partsAgree_shapes hshapes.1 hshapes.2 T]
  cases ha <;> cases hb
  case name.name id text _ hid id' text' _ hid' =>
    obtain ⟨b, hb⟩ := Option.isSome_iff_exists.1 hid
    obtain ⟨b', hb'⟩ := Option.isSome_iff_exists.1 hid'
    exact partsAgree_names hb (hT.ne_var hb) hb' (hT.ne_var hb') ..
  all_goals first | rfl | exact absurd ⟨trivial, trivial⟩ hshapes

end Parts

/-! ## Opening a pair -/

/-- What is left of a pair: the texts under which it is written down, if it is, and the pairs of parts. -/
structure Opening where
  key : Option (String × String)
  parts : List (Option (Ty × Ty))

/-- How a comparison goes on with what is left of a pair. -/
def Opening.run (agree : Ty → Ty → UnifyM Bool) (o : Opening) : UnifyM Bool :=
  match o.key with
  | none => agreeEach agree o.parts
  | some pair => do
    if pair.1 = pair.2 then return true
    if (← get).contains pair then return true
    modify (pair :: ·)
    agreeEach agree o.parts

/-- Two types that are neither one tree nor errors, and what they are without member types in front. -/
structure Heads (T : Store) (a b a' b' : Ty) : Prop where
  differ : ¬ a.same b
  sound : Faulty T a false ∧ Faulty T b false
  left : Settles (fun _ => stripDot a) T (.ok a')
  right : Settles (fun _ => stripDot b) T (.ok b')

/-- What is left of a pair once it is opened. Only pairs of which one is a name are written down. -/
inductive Opens (T : Store) (mode : Agreement) (a b : Ty) : Opening → Prop
  | same (h : a.same b) : Opens T mode a b ⟨none, []⟩
  | error (hdiffer : ¬ a.same b) (h : Faulty T a true ∨ Faulty T a false ∧ Faulty T b true) :
      Opens T mode a b ⟨none, []⟩
  | nominal {a' b'} (hmode : mode = .nominal) (h : Heads T a b a' b') :
      Opens T mode a b ⟨none, partsOf T a' b'⟩
  | names {a' b' a'' b'' x y} (hmode : mode = .conversion) (h : Heads T a b a' b')
      (hnamed : a'.isNamed || b'.isNamed) (hx : Mangles T a' x) (hy : Mangles T b' y)
      (ha : Bares T a' a'') (hb : Bares T b' b'') (hsound : Faulty T a'' false ∧ Faulty T b'' false) :
      Opens T mode a b ⟨some (x, y), [some (a'', b'')]⟩
  | wrongNames {a' b' a'' b'' x y} (hmode : mode = .conversion) (h : Heads T a b a' b')
      (hnamed : a'.isNamed || b'.isNamed) (hx : Mangles T a' x) (hy : Mangles T b' y)
      (ha : Bares T a' a'') (hb : Bares T b' b'')
      (herror : Faulty T a'' true ∨ Faulty T a'' false ∧ Faulty T b'' true) :
      Opens T mode a b ⟨some (x, y), []⟩
  | decay {a' b' p} (hmode : mode = .conversion) (h : Heads T a b a' b')
      (hnamed : ¬ (a'.isNamed || b'.isNamed)) (hdecay : Decays T a' b' p) : Opens T mode a b ⟨none, [some p]⟩
  | parts {a' b'} (hmode : mode = .conversion) (h : Heads T a b a' b')
      (hnamed : ¬ (a'.isNamed || b'.isNamed)) (hdecay : ∀ p, ¬ Decays T a' b' p) :
      Opens T mode a b ⟨none, partsOf T a' b'⟩

/-- A struct is laid out like the descriptor of one slice. -/
theorem Describes.unique {T : Store} {ms : List (Member Ty)} {e e' : Ty} (h : Describes T ms e)
    (h' : Describes T ms e') : e = e' := by
  cases h with
  | mk _ h =>
    cases h' with
    | mk _ h' =>
      cases h.unique h'
      rfl

/-- There is one way at most in which an array becomes a slice. -/
theorem Decays.unique {T : Store} {a b : Ty} {p p' : Ty × Ty} (h : Decays T a b p) (h' : Decays T a b p') :
    p = p' := by
  cases h with
  | pointer h =>
    cases h' with
    | pointer h' =>
      cases h.unique h'
      rfl
  | array => cases h'; rfl
  | descriptor h =>
    cases h' with
    | descriptor h' => rw [h.unique h']
  | record h =>
    cases h' with
    | record h' => rw [h.unique h']

/-- What two types lead to at their heads is one pair. -/
theorem Heads.unique {T : Store} {a b a' b' a'' b'' : Ty} (h : Heads T a b a' b') (h' : Heads T a b a'' b'') :
    a' = a'' ∧ b' = b'' :=
  ⟨Except.ok.inj (h.left.unique h'.left), Except.ok.inj (h.right.unique h'.right)⟩

/-- It is not known of two types that they are errors and that they are not. -/
theorem not_faulty {T : Store} {a b : Ty} (h : Faulty T a false ∧ Faulty T b false)
    (h' : Faulty T a true ∨ Faulty T a false ∧ Faulty T b true) : False := by
  obtain h' | h' := h'
  · exact Bool.false_ne_true (Tells.unique h.1 h')
  · exact Bool.false_ne_true (Tells.unique h.2 h'.2)

/-- A pair is opened in one way. -/
theorem Opens.unique {T : Store} {mode : Agreement} {a b : Ty} {o o' : Opening} (h : Opens T mode a b o)
    (h' : Opens T mode a b o') : o = o' := by
  cases h with
  | same h =>
    cases h' with
    | same => rfl
    | error hdiffer => exact absurd h hdiffer
    | nominal _ h' | names _ h' | wrongNames _ h' | decay _ h' | parts _ h' => exact absurd h h'.differ
  | error hdiffer h =>
    cases h' with
    | same h' => exact absurd h' hdiffer
    | error => rfl
    | nominal _ h' | names _ h' | wrongNames _ h' | decay _ h' | parts _ h' => exact (not_faulty h'.sound h).elim
  | nominal hmode h =>
    cases h' with
    | same h' => exact absurd h' h.differ
    | error _ h' => exact (not_faulty h.sound h').elim
    | nominal _ h' =>
      obtain ⟨rfl, rfl⟩ := h.unique h'
      rfl
    | names hmode' | wrongNames hmode' | decay hmode' | parts hmode' => simp [hmode] at hmode'
  | names hmode h hnamed hx hy ha hb hsound =>
    cases h' with
    | same h' => exact absurd h' h.differ
    | error _ h' => exact (not_faulty h.sound h').elim
    | nominal hmode' => simp [hmode] at hmode'
    | names _ h' _ hx' hy' ha' hb' =>
      obtain ⟨rfl, rfl⟩ := h.unique h'
      rw [Tells.unique hx hx', Tells.unique hy hy', ha.unique ha', hb.unique hb']
    | wrongNames _ h' _ _ _ ha' hb' herror =>
      obtain ⟨rfl, rfl⟩ := h.unique h'
      obtain rfl := ha.unique ha'
      obtain rfl := hb.unique hb'
      exact (not_faulty hsound herror).elim
    | decay _ h' hnamed' | parts _ h' hnamed' =>
      obtain ⟨rfl, rfl⟩ := h.unique h'
      exact absurd hnamed hnamed'
  | wrongNames hmode h hnamed hx hy ha hb herror =>
    cases h' with
    | same h' => exact absurd h' h.differ
    | error _ h' => exact (not_faulty h.sound h').elim
    | nominal hmode' => simp [hmode] at hmode'
    | names _ h' _ _ _ ha' hb' hsound =>
      obtain ⟨rfl, rfl⟩ := h.unique h'
      obtain rfl := ha.unique ha'
      obtain rfl := hb.unique hb'
      exact (not_faulty hsound herror).elim
    | wrongNames _ h' _ hx' hy' =>
      obtain ⟨rfl, rfl⟩ := h.unique h'
      rw [Tells.unique hx hx', Tells.unique hy hy']
    | decay _ h' hnamed' | parts _ h' hnamed' =>
      obtain ⟨rfl, rfl⟩ := h.unique h'
      exact absurd hnamed hnamed'
  | decay hmode h hnamed hdecay =>
    cases h' with
    | same h' => exact absurd h' h.differ
    | error _ h' => exact (not_faulty h.sound h').elim
    | nominal hmode' => simp [hmode] at hmode'
    | names _ h' hnamed' | wrongNames _ h' hnamed' =>
      obtain ⟨rfl, rfl⟩ := h.unique h'
      exact absurd hnamed' hnamed
    | decay _ h' _ hdecay' =>
      obtain ⟨rfl, rfl⟩ := h.unique h'
      rw [hdecay.unique hdecay']
    | parts _ h' _ hdecay' =>
      obtain ⟨rfl, rfl⟩ := h.unique h'
      exact absurd hdecay (hdecay' _)
  | parts hmode h hnamed hdecay =>
    cases h' with
    | same h' => exact absurd h' h.differ
    | error _ h' => exact (not_faulty h.sound h').elim
    | nominal hmode' => simp [hmode] at hmode'
    | names _ h' hnamed' | wrongNames _ h' hnamed' =>
      obtain ⟨rfl, rfl⟩ := h.unique h'
      exact absurd hnamed' hnamed
    | decay _ h' _ hdecay' =>
      obtain ⟨rfl, rfl⟩ := h.unique h'
      exact absurd hdecay' (hdecay _)
    | parts _ h' =>
      obtain ⟨rfl, rfl⟩ := h.unique h'
      rfl

/-- From some number of steps on. -/
theorem Settles.eventually {α : Type} {x : TypeM α} {a : α} {T : Store}
    (h : Settles (fun _ => x) T (.ok a)) : ∃ N, ∀ m ≥ N, x (T.withLimit m) = .ok a (T.withLimit m) := by
  obtain ⟨N, hN⟩ := h
  exact ⟨N, fun m hm => hN m m hm hm⟩

/-- What follows two types that are no errors. -/
theorem run_sound {T : Store} {a b : Ty} (h : Faulty T a false ∧ Faulty T b false) :
    ∃ N, ∀ m ≥ N, ∀ (rest : UnifyM Bool) L, (do
      if ← isError a then return true
      if ← isError b then return true
      rest : UnifyM Bool) L (T.withLimit m) = rest L (T.withLimit m) := by
  obtain ⟨N, hN⟩ := h.1.settles.eventually
  obtain ⟨N', hN'⟩ := h.2.settles.eventually
  refine ⟨N + N', fun m hm rest L => ?_⟩
  refine (inner_lift_run (hN m (by omega)) _ L).trans ?_
  rw [if_neg Bool.false_ne_true]
  refine (inner_lift_run (hN' m (by omega)) _ L).trans ?_
  rw [if_neg Bool.false_ne_true]

/-- An error agrees with every type. -/
theorem run_error {T : Store} {a b : Ty} (h : Faulty T a true ∨ Faulty T a false ∧ Faulty T b true) :
    ∃ N, ∀ m ≥ N, ∀ (rest : UnifyM Bool) L, (do
      if ← isError a then return true
      if ← isError b then return true
      rest : UnifyM Bool) L (T.withLimit m) = (pure true : UnifyM Bool) L (T.withLimit m) := by
  obtain h | ⟨h, h'⟩ := h
  · obtain ⟨N, hN⟩ := h.settles.eventually
    exact ⟨N, fun m hm rest L => inner_lift_run (hN m hm) _ L⟩
  · obtain ⟨N, hN⟩ := h.settles.eventually
    obtain ⟨N', hN'⟩ := h'.settles.eventually
    refine ⟨N + N', fun m hm rest L => ?_⟩
    refine (inner_lift_run (hN m (by omega)) _ L).trans ?_
    rw [if_neg Bool.false_ne_true]
    exact inner_lift_run (hN' m (by omega)) _ L

/-- How a comparison goes on at the heads of two types. -/
def agreeHeads (agree : Ty → Ty → UnifyM Bool) (mode : Agreement) (a b : Ty) : UnifyM Bool := do
  if mode = .nominal then
    partsAgree agree a b
  else if a.isNamed || b.isNamed then
    let pair := (← read (·.mangle a), ← read (·.mangle b))
    if pair.1 = pair.2 then return true
    if (← get).contains pair then return true
    modify (pair :: ·)
    let a ← dealias a
    let b ← dealias b
    if ← isError a then return true
    if ← isError b then return true
    agree a b
  else
    match ← decayElements? a b with
    | some (element, wanted) => agree element wanted
    | none => partsAgree agree a b

section Opening

variable {M : Prop} {T : Store} {mode : Agreement} {a b : Ty}

/-- A member type in front is taken away. -/
theorem Definite.stripDot (hT : Definite M T) (ha : Fixed M T a) :
    ∃ a', Settles (fun _ => Types.stripDot a) T (.ok a') ∧ ∀ D, Gathers T D → D a → D a' := by
  cases ha with
  | dot hM h =>
    obtain ⟨u, hu, -⟩ := hT.bares (.dot hM h)
    exact ⟨u, hu, fun D hD hmem => hT.bares_gathered (.dot hM h) hu hD hmem⟩
  | _ => exact ⟨_, .const fun _ => rfl, fun D _ hmem => hmem⟩

/-- The heads of two types are in the families that the types are in. -/
theorem Heads.gathered {a' b' : Ty} (h : Heads T a b a' b') (hT : Definite M T) (ha : Fixed M T a)
    (hb : Fixed M T b) {D : Ty → Prop} (hD : Gathers T D) (hmem : D a ∧ D b) : D a' ∧ D b' := by
  obtain ⟨u, hu, hgathers⟩ := hT.stripDot ha
  obtain ⟨u', hu', hgathers'⟩ := hT.stripDot hb
  obtain rfl := Except.ok.inj (h.left.unique hu)
  obtain rfl := Except.ok.inj (h.right.unique hu')
  exact ⟨hgathers D hD hmem.1, hgathers' D hD hmem.2⟩

/-- The parts that are compared are what both types are made of, the other way round for arguments. -/
theorem mentions_of_partsOf {p : Ty × Ty} (hp : some p ∈ partsOf T a b) :
    Mentions {} a p.1 ∧ Mentions {} b p.2 ∨ Mentions {} b p.1 ∧ Mentions {} a p.2 := by
  have hzip {α : Type} {P : Prop} {g : α → α → Option (Ty × Ty)} {xs ys : List α}
      (hg : ∀ x ∈ xs, ∀ y ∈ ys, g x y = some p → P) (hp : some p ∈ List.zipWith g xs ys) : P := by
    rw [← List.map_uncurry_zip_eq_zipWith] at hp
    obtain ⟨⟨x, y⟩, hxy, heq⟩ := List.mem_map.1 hp
    exact hg x (List.of_mem_zip hxy).1 y (List.of_mem_zip hxy).2 heq
  unfold partsOf at hp
  split at hp
  case h_1 | h_2 => split at hp <;> simp at hp
  case h_3 =>
    obtain rfl : p = _ := by simpa using hp
    exact .inl ⟨.pointer, .pointer⟩
  case h_4 =>
    obtain rfl : p = _ := by simpa using hp
    exact .inl ⟨.slice, .slice⟩
  case h_5 =>
    split at hp
    · obtain rfl : p = _ := by simpa using hp
      exact .inl ⟨.array, .array⟩
    · simp at hp
  case h_6 =>
    split at hp
    · refine hzip (fun m hm m' hm' heq => ?_) hp
      split at heq
      · cases heq
        exact .inl ⟨.member hm, .member hm'⟩
      · cases heq
    · simp at hp
  case h_7 =>
    split at hp
    · obtain hp | hp := List.mem_append.1 hp
      · refine hzip (fun x hx y hy heq => ?_) hp
        cases heq
        exact .inr ⟨.argument hx, .argument hy⟩
      · obtain rfl : p = _ := by simpa using hp
        exact .inl ⟨.result, .result⟩
    · simp at hp
  case h_8 => simp at hp

/-- The parts that are compared are in the families that both shapes are in. -/
theorem partsOf_gathered {D : Ty → Prop} (hmentions : ∀ {t u}, D t → Mentions T t u → D u) (ha : D a)
    (hb : D b) {p : Ty × Ty} (hp : some p ∈ partsOf T a b) : D p.1 ∧ D p.2 := by
  obtain ⟨h, h'⟩ | ⟨h, h'⟩ := mentions_of_partsOf hp
  · exact ⟨hmentions ha (h.of_empty T), hmentions hb (h'.of_empty T)⟩
  · exact ⟨hmentions hb (h.of_empty T), hmentions ha (h'.of_empty T)⟩

/-- The parts that are compared are smaller. -/
theorem partsOf_smaller {p : Ty × Ty} (hp : some p ∈ partsOf T a b) :
    sizeOf p.1 + sizeOf p.2 < sizeOf a + sizeOf b := by
  obtain ⟨h, h'⟩ | ⟨h, h'⟩ := mentions_of_partsOf hp <;> have := h.sizeOf_lt <;> have := h'.sizeOf_lt <;> omega

/-- The elements that are compared are in a family with what its members mention and lead to, if both shapes
are. -/
theorem Decays.gathered {p : Ty × Ty} (h : Decays T a b p) {D : Ty → Prop}
    (hmentions : ∀ {t u}, D t → Mentions T t u → D u) (hbares : ∀ {t u}, D t → Bares T t u → D u)
    (hmem : D a ∧ D b) : D p.1 ∧ D p.2 := by
  have helement {ms : List (Member Ty)} {l : Option Location} {e : Ty} (hmem : D (.struct ms l))
      (h : Describes T ms e) : D e := by
    cases h with
    | mk _ haddress =>
      exact hmentions (hbares (hmentions hmem (.member List.mem_cons_self)) haddress) .pointer
  cases h with
  | pointer h _ => exact ⟨hmentions (hbares (hmentions hmem.1 .pointer) h) .array, hmentions hmem.2 .slice⟩
  | array => exact ⟨hmentions hmem.1 .array, hmentions hmem.2 .slice⟩
  | descriptor h => exact ⟨helement hmem.1 h, hmentions hmem.2 .slice⟩
  | record h => exact ⟨hmentions hmem.1 .slice, helement hmem.2 h⟩

/-- What is left of a pair is in the families that both types are in. -/
theorem Opens.gathered {o : Opening} (h : Opens T mode a b o) (hT : Definite M T) (ha : Fixed M T a)
    (hb : Fixed M T b) {D : Ty → Prop} (hD : Gathers T D) (hmem : D a ∧ D b) {p : Ty × Ty}
    (hp : some p ∈ o.parts) : D p.1 ∧ D p.2 := by
  have hheads {a' b' : Ty} (h : Heads T a b a' b') :
      (Fixed M T a' ∧ Fixed M T b') ∧ D a' ∧ D b' :=
    ⟨h.gathered hT ha hb hT.gathers ⟨ha, hb⟩, h.gathered hT ha hb hD hmem⟩
  cases h with
  | same | error | wrongNames => simp at hp
  | nominal _ h => exact partsOf_gathered hD.mentions (hheads h).2.1 (hheads h).2.2 hp
  | names _ h _ _ _ hbare hbare' =>
    obtain rfl : p = _ := by simpa using hp
    obtain ⟨⟨ha', hb'⟩, hmem'⟩ := hheads h
    exact ⟨hT.bares_gathered ha' hbare hD hmem'.1, hT.bares_gathered hb' hbare' hD hmem'.2⟩
  | decay _ h _ hdecay =>
    obtain rfl : p = _ := by simpa using hp
    obtain ⟨h₁, h₂⟩ := hdecay.gathered (D := fun t => Fixed M T t ∧ D t)
      (fun ht h => ⟨hT.gathers.mentions ht.1 h, hD.mentions ht.2 h⟩)
      (fun ht h => ⟨hT.bares_gathered ht.1 h hT.gathers ht.1, hT.bares_gathered ht.1 h hD ht.2⟩)
      ⟨⟨(hheads h).1.1, (hheads h).2.1⟩, (hheads h).1.2, (hheads h).2.2⟩
    exact ⟨h₁.2, h₂.2⟩
  | parts _ h => exact partsOf_gathered hD.mentions (hheads h).2.1 (hheads h).2.2 hp

/-- A pair of fixed types is opened. -/
theorem Definite.opens (hT : Definite M T) (ha : Fixed M T a) (hb : Fixed M T b) (mode : Agreement) :
    ∃ o, Opens T mode a b o := by
  by_cases hsame : a.same b
  · exact ⟨_, .same hsame⟩
  obtain ⟨r, hr, -⟩ := hT.faulty ha
  obtain ⟨r', hr', -⟩ := hT.faulty hb
  cases r with
  | true => exact ⟨_, .error hsame (.inl hr)⟩
  | false =>
  cases r' with
  | true => exact ⟨_, .error hsame (.inr ⟨hr, hr'⟩)⟩
  | false =>
  obtain ⟨a', hstrip, -⟩ := hT.stripDot ha
  obtain ⟨b', hstrip', -⟩ := hT.stripDot hb
  have hheads : Heads T a b a' b' := ⟨hsame, ⟨hr, hr'⟩, hstrip, hstrip'⟩
  obtain ⟨ha', hb'⟩ := hheads.gathered hT ha hb hT.gathers ⟨ha, hb⟩
  cases mode with
  | nominal => exact ⟨_, .nominal rfl hheads⟩
  | conversion =>
  by_cases hnamed : a'.isNamed || b'.isNamed
  · obtain ⟨x, hx⟩ := hT.mangles ha'
    obtain ⟨y, hy⟩ := hT.mangles hb'
    obtain ⟨a'', hbare, -⟩ := hT.bares ha'
    obtain ⟨b'', hbare', -⟩ := hT.bares hb'
    obtain ⟨r, hr, -⟩ := hT.faulty (hT.bares_gathered ha' hbare hT.gathers ha')
    obtain ⟨r', hr', -⟩ := hT.faulty (hT.bares_gathered hb' hbare' hT.gathers hb')
    cases r with
    | true => exact ⟨_, .wrongNames rfl hheads hnamed hx hy hbare hbare' (.inl hr)⟩
    | false =>
    cases r' with
    | true => exact ⟨_, .wrongNames rfl hheads hnamed hx hy hbare hbare' (.inr ⟨hr, hr'⟩)⟩
    | false => exact ⟨_, .names rfl hheads hnamed hx hy hbare hbare' ⟨hr, hr'⟩⟩
  · obtain ⟨r, -, hdecays⟩ := hT.decayElements ha' hb'
    cases r with
    | none => exact ⟨_, .parts rfl hheads hnamed fun p hp => absurd ((hdecays p).2 hp) nofun⟩
    | some p => exact ⟨_, .decay rfl hheads hnamed ((hdecays p).1 rfl)⟩

/-- A comparison of two types that are no errors goes on at their heads. -/
theorem Definite.unify_heads (hT : Definite M T) (mode : Agreement) (ha : Fixed M T a) (hb : Fixed M T b)
    {a' b' : Ty} (h : Heads T a b a' b') : ∃ N, ∀ n m L, N ≤ m → unifyWithin mode (n + 1) a b L (T.withLimit m) =
      agreeHeads (unifyWithin mode n) mode a' b' L (T.withLimit m) := by
  obtain ⟨N₁, hN₁⟩ := (hT.normalize ha).settles.eventually
  obtain ⟨N₂, hN₂⟩ := (hT.normalize hb).settles.eventually
  obtain ⟨N₃, hN₃⟩ := run_sound h.sound
  obtain ⟨N₄, hN₄⟩ := h.left.eventually
  obtain ⟨N₅, hN₅⟩ := h.right.eventually
  refine ⟨N₁ + N₂ + N₃ + N₄ + N₅, fun n m L hm => ?_⟩
  refine (inner_lift_run (hN₁ m (by omega)) _ L).trans ?_
  refine (inner_lift_run (hN₂ m (by omega)) _ L).trans ?_
  rw [if_neg h.differ]
  refine (hN₃ m (by omega) _ L).trans ?_
  split
  · cases ha
  · cases hb
  refine (inner_lift_run (hN₄ m (by omega)) _ L).trans ?_
  exact inner_lift_run (hN₅ m (by omega)) _ L

/-- A pair of names is looked up under its texts, and is written down before what the names stand for is
compared. -/
theorem run_names {a'' b'' : Ty} {x y : String} (hx : Mangles T a x) (hy : Mangles T b y)
    (ha : Bares T a a'') (hb : Bares T b b'') : ∃ N, ∀ m ≥ N, ∀ (agree : Ty → Ty → UnifyM Bool)
      (parts : List (Option (Ty × Ty))) (rest : Ty → Ty → UnifyM Bool),
      (∀ L, rest a'' b'' L (T.withLimit m) = agreeEach agree parts L (T.withLimit m)) → ∀ L, (do
      let pair := (← read (·.mangle a), ← read (·.mangle b))
      if pair.1 = pair.2 then return true
      if (← get).contains pair then return true
      modify (pair :: ·)
      let a ← dealias a
      let b ← dealias b
      rest a b : UnifyM Bool) L (T.withLimit m) =
        Opening.run agree ⟨some (x, y), parts⟩ L (T.withLimit m) := by
  obtain ⟨N₁, hN₁⟩ := hx.settles.eventually
  obtain ⟨N₂, hN₂⟩ := hy.settles.eventually
  obtain ⟨N₃, hN₃⟩ := Settles.eventually ha
  obtain ⟨N₄, hN₄⟩ := Settles.eventually hb
  refine ⟨N₁ + N₂ + N₃ + N₄, fun m hm agree parts rest hrest L => ?_⟩
  refine (inner_lift_run (hN₁ m (by omega)) _ L).trans ?_
  refine (inner_lift_run (hN₂ m (by omega)) _ L).trans ?_
  by_cases hsame : x = y
  · simp only [Opening.run, if_pos hsame]
  · simp only [Opening.run, if_neg hsame]
    change (if L.contains (x, y) then pure true else _ : UnifyM Bool) L _ =
      (if L.contains (x, y) then pure true else _ : UnifyM Bool) L _
    by_cases hmem : L.contains (x, y)
    · simp only [if_pos hmem]
    · simp only [if_neg hmem]
      change (do rest (← Types.dealias a) (← Types.dealias b) : UnifyM Bool) ((x, y) :: L) _ =
        agreeEach agree parts ((x, y) :: L) _
      refine (inner_lift_run (hN₃ m (by omega)) _ ((x, y) :: L)).trans ?_
      refine (inner_lift_run (hN₄ m (by omega)) _ ((x, y) :: L)).trans ?_
      exact hrest _

/-- A comparison opens the pair first. -/
theorem Definite.unify_opens (hT : Definite M T) (ha : Fixed M T a) (hb : Fixed M T b) {o : Opening}
    (h : Opens T mode a b o) : ∃ N, ∀ n m L, N ≤ m → unifyWithin mode (n + 1) a b L (T.withLimit m) =
      o.run (unifyWithin mode n) L (T.withLimit m) := by
  have hfixed {a' b' : Ty} (h : Heads T a b a' b') : Fixed M T a' ∧ Fixed M T b' :=
    h.gathered hT ha hb hT.gathers ⟨ha, hb⟩
  obtain ⟨N₁, hN₁⟩ := (hT.normalize ha).settles.eventually
  obtain ⟨N₂, hN₂⟩ := (hT.normalize hb).settles.eventually
  cases h with
  | same h =>
    refine ⟨N₁ + N₂, fun n m L hm => ?_⟩
    refine (inner_lift_run (hN₁ m (by omega)) _ L).trans ?_
    refine (inner_lift_run (hN₂ m (by omega)) _ L).trans ?_
    rw [if_pos h]
    rfl
  | error hdiffer h =>
    obtain ⟨N₃, hN₃⟩ := run_error h
    refine ⟨N₁ + N₂ + N₃, fun n m L hm => ?_⟩
    refine (inner_lift_run (hN₁ m (by omega)) _ L).trans ?_
    refine (inner_lift_run (hN₂ m (by omega)) _ L).trans ?_
    rw [if_neg hdiffer]
    exact hN₃ m (by omega) _ L
  | nominal hmode h =>
    obtain ⟨N, hN⟩ := hT.unify_heads mode ha hb h
    refine ⟨N, fun n m L hm => (hN n m L hm).trans ?_⟩
    rw [agreeHeads, if_pos hmode]
    exact hT.partsAgree (hfixed h).1 (hfixed h).2 L m
  | names hmode h hnamed hx hy hbare hbare' hsound =>
    obtain ⟨N, hN⟩ := hT.unify_heads mode ha hb h
    obtain ⟨N₃, hN₃⟩ := run_names hx hy hbare hbare'
    obtain ⟨N₄, hN₄⟩ := run_sound hsound
    refine ⟨N + N₃ + N₄, fun n m L hm => (hN n m L (by omega)).trans ?_⟩
    rw [agreeHeads, if_neg (by simp [hmode]), if_pos hnamed]
    refine hN₃ m (by omega) _ _ _ (fun L => ?_) L
    rw [agreeEach_single]
    exact hN₄ m (by omega) _ L
  | wrongNames hmode h hnamed hx hy hbare hbare' herror =>
    obtain ⟨N, hN⟩ := hT.unify_heads mode ha hb h
    obtain ⟨N₃, hN₃⟩ := run_names hx hy hbare hbare'
    obtain ⟨N₄, hN₄⟩ := run_error herror
    refine ⟨N + N₃ + N₄, fun n m L hm => (hN n m L (by omega)).trans ?_⟩
    rw [agreeHeads, if_neg (by simp [hmode]), if_pos hnamed]
    exact hN₃ m (by omega) _ _ _ (fun L => hN₄ m (by omega) _ L) L
  | decay hmode h hnamed hdecay =>
    obtain ⟨N, hN⟩ := hT.unify_heads mode ha hb h
    obtain ⟨r, hr, hdecays⟩ := hT.decayElements (hfixed h).1 (hfixed h).2
    obtain rfl : r = some _ := (hdecays _).2 hdecay
    obtain ⟨N₃, hN₃⟩ := hr.eventually
    refine ⟨N + N₃, fun n m L hm => (hN n m L (by omega)).trans ?_⟩
    rw [agreeHeads, if_neg (by simp [hmode]), if_neg hnamed, inner_lift_run (hN₃ m (by omega))]
    exact congrArg (· L (T.withLimit m)) (agreeEach_single _).symm
  | parts hmode h hnamed hdecay =>
    obtain ⟨N, hN⟩ := hT.unify_heads mode ha hb h
    obtain ⟨r, hr, hdecays⟩ := hT.decayElements (hfixed h).1 (hfixed h).2
    obtain rfl : r = none := Option.eq_none_iff_forall_not_mem.2 fun p hp => hdecay p ((hdecays p).1 hp)
    obtain ⟨N₃, hN₃⟩ := hr.eventually
    refine ⟨N + N₃, fun n m L hm => (hN n m L (by omega)).trans ?_⟩
    rw [agreeHeads, if_neg (by simp [hmode]), if_neg hnamed, inner_lift_run (hN₃ m (by omega))]
    exact hT.partsAgree (hfixed h).1 (hfixed h).2 L m

end Opening

end Qll.Types
