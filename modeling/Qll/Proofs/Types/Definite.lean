import Qll.Proofs.Types.Conversion
import Qll.Proofs.Types.Traversal

/-!
# Definite types

A type is fixed when there is neither a variable nor a template in it and its names are resolved. In a
definite store names stand for fixed types with finite layouts. Whatever a comparison asks about a fixed
type of a definite store is then answered in finitely many steps: what it stands for, whether that is
the error type, its mangled text, and which elements are compared where an array becomes a slice.
-/

namespace Qll.Types

open Qll.Computation
open Source (Location)

/-! ## Readings that do not depend on the number of steps -/

/-- Once enough steps are allowed a reading of the store always gives the same. -/
def Tells {α : Type} (T : Store) (f : Nat → Store → Except Fault α) (a : α) : Prop :=
  ∃ N, ∀ n m, N ≤ n → N ≤ m → f n (T.withLimit m) = .ok a

namespace Tells

variable {α β : Type} {T : Store} {f : Nat → Store → Except Fault α} {a : α}

/-- What does not depend on the steps is told from the start. -/
theorem const (h : ∀ n m, f n (T.withLimit m) = .ok a) : Tells T f a := ⟨0, fun n m _ _ => h n m⟩

/-- A step more may be asked for. -/
theorem succ (h : Tells T (fun n => f (n + 1)) a) : Tells T f a := by
  obtain ⟨N, hN⟩ := h
  refine ⟨N + 1, fun n m hn hm => ?_⟩
  cases n with
  | zero => omega
  | succ n => exact hN n m (by omega) (by omega)

/-- A reading may come behind another one. -/
theorem bind {g : Nat → Store → α → Except Fault β} {b : β} (h : Tells T f a)
    (hg : Tells T (fun n S => g n S a) b) : Tells T (fun n S => f n S >>= g n S) b := by
  obtain ⟨N, hN⟩ := h
  obtain ⟨M, hM⟩ := hg
  refine ⟨max N M, fun n m hn hm => ?_⟩
  change f n _ >>= g n _ = _
  rw [hN n m (by omega) (by omega)]
  exact hM n m (by omega) (by omega)

/-- What is made of a reading is told too. -/
theorem map (h : Tells T f a) (g : α → β) : Tells T (fun n S => do return g (← f n S)) (g a) :=
  h.bind (.const fun _ _ => rfl)

/-- Readings of the items of a list. -/
theorem mapM {γ : Type} {g : Nat → Store → γ → Except Fault β} {l : List γ}
    (h : ∀ c ∈ l, ∃ b, Tells T (fun n S => g n S c) b) :
    ∃ bs, Tells T (fun n S => l.mapM (g n S)) bs := by
  induction l with
  | nil => exact ⟨[], .const fun _ _ => rfl⟩
  | cons c l ih =>
    obtain ⟨b, hb⟩ := h c (by simp)
    obtain ⟨bs, hbs⟩ := ih fun c hc => h c (by simp [hc])
    simp only [List.mapM_cons]
    exact ⟨b :: bs, hb.bind (hbs.map fun bs => b :: bs)⟩

/-- A reading that asks the store how many steps it may take. -/
theorem limited (h : Tells T f a) : Tells T (fun _ S => f S.limit S) a := by
  obtain ⟨N, hN⟩ := h
  exact ⟨N, fun _ m _ hm => hN m m hm hm⟩

/-- Only one thing is told. -/
theorem unique {a' : α} (h : Tells T f a) (h' : Tells T f a') : a = a' := by
  obtain ⟨N, hN⟩ := h
  obtain ⟨M, hM⟩ := h'
  exact Except.ok.inj ((hN (max N M) (max N M) (by omega) (by omega)).symm.trans
    (hM (max N M) (max N M) (by omega) (by omega)))

/-- A reading that is the same with any number of steps from some number on. -/
theorem steps (k : Nat) (h : ∀ n m, f (n + k) (T.withLimit (m + k)) = .ok a) : Tells T f a := by
  refine ⟨k, fun n m hn hm => ?_⟩
  obtain ⟨n, rfl⟩ := Nat.exists_eq_add_of_le' hn
  obtain ⟨m, rfl⟩ := Nat.exists_eq_add_of_le' hm
  exact h n m

/-- A reading as a computation. -/
theorem settles (h : Tells T f a) : Settles (fun n => read (f n)) T (.ok a) := by
  obtain ⟨N, hN⟩ := h
  exact ⟨N, fun n m hn hm => read_ok.2 ⟨hN n m hn hm, rfl⟩⟩

end Tells

/-- A computation that gives the same with any number of steps from some number on. -/
theorem Settles.steps {α : Type} {T : Store} {x : Nat → TypeM α} {r : Except Fault α} (k : Nat)
    (h : ∀ n m, x (n + k) (T.withLimit (m + k)) = unchanged r (T.withLimit (m + k))) : Settles x T r := by
  refine ⟨k, fun n m hn hm => ?_⟩
  obtain ⟨n, rfl⟩ := Nat.exists_eq_add_of_le' hn
  obtain ⟨m, rfl⟩ := Nat.exists_eq_add_of_le' hm
  exact h n m

/-! ## Definite stores -/

/-- A type without variables and templates, and without member types unless `M` says so, the names of
which are resolved. -/
abbrev Fixed (M : Prop) (T : Store) : Ty → Prop :=
  Projected M (fun id => (T.binding? id).isSome) fun _ => True

/-- Names stand for fixed types with finite layouts. -/
structure Definite (M : Prop) (T : Store) : Prop where
  fixed : ∀ {id b}, T.binding? id = some b → Fixed M T b.type
  layout : ∀ {id b}, T.binding? id = some b → Layout T (· ≠ unsized) True b.type

/-- A family of types with the error type and with what its members mention. -/
structure Gathers (T : Store) (D : Ty → Prop) : Prop where
  mentions : ∀ {t u}, D t → Mentions T t u → D u
  error : D .error

/-- What a fixed type leads to at its head: names are followed, and member types are taken. -/
def Bares (T : Store) (t u : Ty) : Prop := Settles (fun _ => dealias t) T (.ok u)

/-- Whether a type is, or names, the error type. -/
def Faulty (T : Store) (t : Ty) (r : Bool) : Prop := Tells T (fun _ S => S.isError t) r

/-- The mangled text of a type. -/
def Mangles (T : Store) (t : Ty) (text : String) : Prop := Tells T (fun _ S => S.mangle t) text

/-- A text that is found in enough steps is the mangled text. -/
theorem Tells.mangles {T : Store} {t : Ty} {text : String}
    (h : Tells T (fun n S => S.renderWithin true n t) text) : Mangles T t text := h.limited

section Parameters

variable {T : Store} {id v : Nat} {b : Binding} (hb : T.binding? id = some b)

include hb

/-- The text of a name that stands for no parameter. -/
theorem nameText_declared (hvar : ∀ v, b.type ≠ .var v) (inner : Ty → Except Fault String) (text : String) :
    T.nameText true inner id text = .ok b.qualified := by
  obtain ⟨qualified, type, scope⟩ := b
  cases type with
  | var v => exact absurd rfl (hvar v)
  | _ => simp [Store.nameText, hb]

/-- The text of the name of a parameter. -/
theorem nameText_parameter (hv : b.type = .var v) (inner : Ty → Except Fault String) (text : String) :
    T.nameText true inner id text = inner (.var v) := by
  obtain ⟨qualified, type, scope⟩ := b
  obtain rfl : type = .var v := hv
  simp [Store.nameText, hb]

/-- A name that stands for no parameter is not followed. -/
theorem normalize_declared (hvar : ∀ v, b.type ≠ .var v) (n : Nat) (text : String) (l : Option Location) :
    T.normalizeWithin (n + 1) (.name id text l) = .ok (.name id text l) := by
  obtain ⟨qualified, type, scope⟩ := b
  cases type with
  | var v => exact absurd rfl (hvar v)
  | _ => simp [Store.normalizeWithin, hb]

/-- The name of a parameter is followed. -/
theorem normalize_parameter (hv : b.type = .var v) (n : Nat) (text : String) (l : Option Location) :
    T.normalizeWithin (n + 1) (.name id text l) = T.normalizeWithin n (.var v) := by
  obtain ⟨qualified, type, scope⟩ := b
  obtain rfl : type = .var v := hv
  simp [Store.normalizeWithin, hb]

end Parameters

/-- A name stands for a type of each family that the name is in. -/
theorem target_gathered {T : Store} {id : Nat} (h : (T.binding? id).isSome) (text : String) :
    ∃ u, T.target id text = .ok u ∧ ∀ D l, Gathers T D → D (.name id text l) → D u := by
  obtain ⟨b, hb⟩ := Option.isSome_iff_exists.1 h
  obtain htarget | htarget := target_of_binding hb text
  · exact ⟨_, htarget, fun D l hD ht => hD.mentions ht (.name hb)⟩
  · exact ⟨_, htarget, fun D l hD _ => hD.error⟩

namespace Definite

variable {M : Prop} {T : Store} (hT : Definite M T) {t : Ty}

include hT

/-- The fixed types are such a family. -/
theorem gathers : Gathers T (Fixed M T) where
  mentions ht h := by
    cases h with
    | pointer | slice | array | base => cases ht; assumption
    | member hm => cases ht with | struct hms => exact hms _ hm
    | argument ha => cases ht with | function has _ => exact has _ ha
    | result => cases ht with | function _ hr => exact hr
    | name hb => exact hT.fixed hb
    | «instance» | bound => cases ht
  error := .builtin

/-- Fixed types have finite layouts. -/
theorem finite (ht : Fixed M T t) : Layout T (· ≠ unsized) True t := by
  induction ht with
  | builtin => exact .builtin
  | name h =>
    obtain ⟨b, hb⟩ := Option.isSome_iff_exists.1 h
    exact layout_of_binding hb (fun _ => hT.layout hb) _ _
  | pointer => exact .pointer
  | slice => exact .slice
  | array _ _ ih => exact .array fun _ => ih
  | struct _ ih => exact .struct ih
  | function => exact .function
  | dot _ _ ih => exact ih.memberType _ _

/-- No name stands for a variable. -/
theorem ne_var {id : Nat} {b : Binding} (hb : T.binding? id = some b) (v : Nat) : b.type ≠ .var v := by
  intro hv
  nomatch hv ▸ hT.fixed hb

/-- No name stands for a variable, so nothing is followed. -/
theorem normalize (ht : Fixed M T t) : Tells T (fun _ S => S.normalize t) t := by
  refine Tells.limited (f := fun n S => S.normalizeWithin n t) (.succ (.const fun n m => ?_))
  cases ht with
  | @name _ text l h =>
    obtain ⟨b, hb⟩ := Option.isSome_iff_exists.1 h
    exact normalize_declared (T := T.withLimit m) hb (hT.ne_var hb) n text l
  | _ => rfl

/-- A type that is a shape resolves to itself and is its own head. -/
theorem shape_followed (ht : Fixed M T t) (hshape : t.IsShape)
    (hresolve : ∀ n, resolveWithin (n + 1) t = pure t) (hhead : ∀ n, dealiasWithin (n + 1) t =
      read (·.normalize t) >>= fun u => match u with
        | .name id text _ => do dealiasWithin n (← read (·.target id text))
        | .apply id head text arguments _ => do dealiasWithin n (← applied id head text arguments)
        | .dot base member _ => do dealiasWithin n (← memberTypeWithin (← limit) base member)
        | u => return u) : ∃ u, u.IsShape ∧ (∀ D, Gathers T D → D t → D u) ∧ Resolves T t u ∧
      Settles (fun n => dealiasWithin n t) T (.ok u) := by
  refine ⟨t, hshape, fun D _ h => h, .succ ?_, .succ ?_⟩
  · simp only [hresolve]
    exact .const fun _ => rfl
  · simp only [hhead]
    refine (hT.normalize ht).settles.bind ?_
    cases t with
    | name | apply | dot => exact absurd hshape id
    | _ => exact .const fun _ => rfl

/-- There are neither variables nor templates in the layout of a fixed type. The head of the type is found,
and it is the shape of the type. -/
theorem followed (ht : Fixed M T t) : Layout T (· ≠ unsized) False t ∧
    ∃ u, u.IsShape ∧ (∀ D, Gathers T D → D t → D u) ∧ Resolves T t u ∧
      Settles (fun n => dealiasWithin n t) T (.ok u) := by
  have hlayout := hT.finite ht
  induction hlayout with
  | builtin => exact ⟨.builtin, hT.shape_followed ht trivial (fun _ => rfl) fun _ => rfl⟩
  | pointer => exact ⟨.pointer, hT.shape_followed ht trivial (fun _ => rfl) fun _ => rfl⟩
  | slice => exact ⟨.slice, hT.shape_followed ht trivial (fun _ => rfl) fun _ => rfl⟩
  | function => exact ⟨.function, hT.shape_followed ht trivial (fun _ => rfl) fun _ => rfl⟩
  | array _ ih =>
    cases ht with
    | array hn he =>
      exact ⟨.array fun hn => (ih hn he).1, hT.shape_followed (.array hn he) trivial (fun _ => rfl) fun _ => rfl⟩
  | struct _ ih =>
    cases ht with
    | struct hms =>
      exact ⟨.struct fun m hm => (ih m hm (hms m hm)).1, hT.shape_followed (.struct hms) trivial (fun _ => rfl)
        fun _ => rfl⟩
  | template | unbound | apply | var => cases ht
  | @name id text l u h _ ih =>
    cases ht with
    | name hid =>
      obtain ⟨u', hu', hgathers⟩ := target_gathered hid text
      obtain rfl := Except.ok.inj (h.symm.trans hu')
      obtain ⟨hlayout, w, hw, hmem, hresolves, hhead⟩ := ih (hgathers _ l hT.gathers (.name hid))
      have htarget : Settles (fun _ => read (·.target id text)) T (.ok u) := .const fun _ => read_ok.2 ⟨h, rfl⟩
      exact ⟨.name h hlayout, w, hw, fun D hD ht => hmem D hD (hgathers D l hD ht), .succ (htarget.bind hresolves),
        .succ ((hT.normalize (.name hid)).settles.bind (htarget.bind hhead))⟩
  | @dot b m l hb hmembers ihb ihmembers =>
    cases ht with
    | dot hM hfixed =>
      obtain ⟨hlayout, w₀, -, hmem₀, hresolves₀, -⟩ := ihb hfixed
      -- The members of the struct that the type stands for are fixed as well.
      have hstruct {ms : List (Member Ty)} {l : Option Location} (hs : Resolves T b (.struct ms l)) :
          ∀ D, Gathers T D → D b → ∀ x ∈ ms, D x.type := fun D hD hb x hx => by
        obtain rfl := Except.ok.inj (hresolves₀.unique hs)
        exact hD.mentions (hmem₀ D hD hb) (.member hx)
      have hlayouts (ms : List (Member Ty)) (l : Option Location) (hs : Resolves T b (.struct ms l))
          (x : Member Ty) (hx : x ∈ ms) := ihmembers ms l hs x hx (hstruct hs _ hT.gathers hfixed x hx)
      have hE : False → ∀ e : Fault, e ≠ .endless → False := fun h => h.elim
      obtain ⟨r, hr, hmember, hcases⟩ := Layout.memberType_settles (E := fun _ => False) m
        (hlayout.finishes hE).1 fun ms l hs x hx => ((hlayouts ms l hs x hx).1.finishes hE).2
      cases r with
      | error e => exact (hr e rfl).elim
      | ok u =>
        have hu : ∃ w, w.IsShape ∧ (∀ D, Gathers T D → D b → D w) ∧ Resolves T u w ∧
            Settles (fun n => dealiasWithin n u) T (.ok w) := by
          obtain rfl | ⟨ms, l', hs, x, hx, rfl⟩ := hcases u rfl
          · obtain ⟨w, hw, hmem, hrest⟩ := hT.shape_followed (.builtin : Fixed M T (.builtin .error none)) trivial
              (fun _ => rfl) fun _ => rfl
            exact ⟨w, hw, fun D hD _ => hmem D hD hD.error, hrest⟩
          · obtain ⟨-, w, hw, hmem, hrest⟩ := hlayouts ms l' hs x hx
            exact ⟨w, hw, fun D hD hb => hmem D hD (hstruct hs D hD hb x hx), hrest⟩
        obtain ⟨w, hw, hmem, hresolves, hhead⟩ := hu
        refine ⟨.dot hlayout fun ms l hs x hx => (hlayouts ms l hs x hx).1, w, hw,
          fun D hD ht => hmem D hD (hD.mentions ht .base), .succ (hmember.bind hresolves), .succ ?_⟩
        refine (hT.normalize (.dot hM hfixed)).settles.bind ?_
        have hassoc (n : Nat) : (do dealiasWithin n (← memberTypeWithin (← limit) b m)) =
            (do memberTypeWithin (← limit) b m) >>= dealiasWithin n := by rw [bind_assoc]
        simp only [hassoc]
        exact hmember.limited.bind hhead

/-- A fixed type has a layout that ends. -/
theorem layout_of_fixed (ht : Fixed M T t) : Layout T (· ≠ unsized) False t := (hT.followed ht).1

/-- What a fixed type leads to. -/
theorem bares (ht : Fixed M T t) : ∃ u, Bares T t u ∧ u.IsShape ∧ Resolves T t u := by
  obtain ⟨u, hu, -, hresolves, hhead⟩ := (hT.followed ht).2
  exact ⟨u, hhead.limited, hu, hresolves⟩

/-- What a fixed type leads to is in the families that the type is in. -/
theorem bares_gathered (ht : Fixed M T t) {u : Ty} (h : Bares T t u) {D : Ty → Prop} (hD : Gathers T D)
    (hmem : D t) : D u := by
  obtain ⟨u', -, hgathers, -, hhead⟩ := (hT.followed ht).2
  obtain rfl := Except.ok.inj (Settles.unique h hhead.limited)
  exact hgathers D hD hmem

/-- A shape leads to itself. -/
theorem bares_shape (ht : Fixed M T t) (hshape : t.IsShape) : Bares T t t := by
  obtain ⟨u, hu, -, hresolves⟩ := hT.bares ht
  have hself : Resolves T t t := by
    cases t with
    | name | apply | dot | var | template => exact absurd hshape id
    | _ => exact .succ (.const fun _ => rfl)
  obtain rfl := Except.ok.inj (hself.unique hresolves)
  exact hu

/-- A name leads to what the type leads to that it stands for. -/
theorem bares_name {id : Nat} {text : String} {l : Option Location} {u w : Ty}
    (ht : Fixed M T (.name id text l)) (htarget : T.target id text = .ok u) (hu : Fixed M T u)
    (h : Bares T u w) : Bares T (.name id text l) w := by
  obtain ⟨w', hw', -, hresolves'⟩ := hT.bares ht
  obtain ⟨w'', hw'', -, hresolves⟩ := hT.bares hu
  obtain rfl := Except.ok.inj (Settles.unique h hw'')
  have hread : Settles (fun _ => read (·.target id text)) T (.ok u) := .const fun _ => read_ok.2 ⟨htarget, rfl⟩
  have hname : Resolves T (.name id text l) w := .succ (hread.bind hresolves)
  obtain rfl := Except.ok.inj (hname.unique hresolves')
  exact hw'

/-- It is known of a fixed type whether it is the error type, and then the type leads to that one. -/
theorem faulty (ht : Fixed M T t) :
    ∃ r, Faulty T t r ∧ (r = true → ∃ l, Bares T t (.builtin .error l)) := by
  suffices h : ∃ r, Tells T (fun n S => S.isErrorWithin n t) r ∧ (r = true → ∃ l, Bares T t (.builtin .error l)) by
    obtain ⟨r, hr, hbares⟩ := h
    exact ⟨r, hr.limited, hbares⟩
  have hlayout := hT.layout_of_fixed ht
  induction hlayout with
  | @builtin kind l =>
    refine ⟨kind == .error, .succ ((hT.normalize ht).bind (.const fun _ _ => rfl)), fun h => ?_⟩
    obtain rfl := beq_iff_eq.1 h
    exact ⟨l, hT.bares_shape ht trivial⟩
  | pointer | slice | function | array | struct | dot =>
    exact ⟨false, .succ ((hT.normalize ht).bind (.const fun _ _ => rfl)), nofun⟩
  | template | unbound | apply | var => cases ht
  | @name id text l u h _ ih =>
    cases ht with
    | name hid =>
      obtain ⟨u', hu', hgathers⟩ := target_gathered hid text
      obtain rfl := Except.ok.inj (h.symm.trans hu')
      have hu := hgathers _ l hT.gathers (.name hid)
      obtain ⟨r, hr, hbares⟩ := ih hu
      refine ⟨r, .succ ((hT.normalize (.name hid)).bind ?_), fun h' => ?_⟩
      · obtain ⟨b, hb⟩ := Option.isSome_iff_exists.1 hid
        have htarget : Tells T (fun _ S => S.target id text) u := .const fun _ _ => h
        obtain ⟨N, hN⟩ := htarget.bind hr
        refine ⟨N, fun n m hn hm => ?_⟩
        simp only [Store.withLimit_binding?, hb, Option.isNone_some, Bool.false_eq_true, ↓reduceIte]
        exact hN n m hn hm
      · obtain ⟨l', hl'⟩ := hbares h'
        exact ⟨l', hT.bares_name (.name hid) h hu hl'⟩

/-- A fixed type has a mangled text, which is found in finitely many steps. -/
theorem renders (ht : Fixed M T t) : ∃ text, Tells T (fun n S => S.renderWithin true n t) text := by
  induction ht with
  | @builtin kind => exact ⟨kind.name, .succ (.const fun _ _ => rfl)⟩
  | @name id text l h =>
    obtain ⟨b, hb⟩ := Option.isSome_iff_exists.1 h
    exact ⟨b.qualified, .succ (.const fun n m => nameText_declared (T := T.withLimit m) hb (hT.ne_var hb) _ text)⟩
  | pointer _ ih =>
    obtain ⟨x, hx⟩ := ih
    exact ⟨_, .succ (hx.map fun x => "*" ++ x)⟩
  | slice _ ih =>
    obtain ⟨x, hx⟩ := ih
    exact ⟨_, .succ (hx.map fun x => "[" ++ x ++ "]")⟩
  | @array e n l _ _ ih =>
    obtain ⟨x, hx⟩ := ih
    exact ⟨_, .succ (hx.map fun x => "[" ++ x ++ "; " ++ Store.lengthText n ++ "]")⟩
  | @struct ms l _ ih =>
    obtain ⟨xs, hxs⟩ := Tells.mapM (g := fun n S (m : Member Ty) => do
        return " " ++ m.name ++ ": " ++ (← S.renderWithin true n m.type) ++ ";") (l := ms) fun m hm => by
      obtain ⟨x, hx⟩ := ih m hm
      exact ⟨_, hx.map fun x => " " ++ m.name ++ ": " ++ x ++ ";"⟩
    exact ⟨_, .succ (hxs.map fun xs => "struct \x7b" ++ String.join xs ++ " \x7d")⟩
  | @function as r l _ _ iha ihr =>
    obtain ⟨xs, hxs⟩ := Tells.mapM (l := as) fun a ha => iha a ha
    obtain ⟨x, hx⟩ := ihr
    exact ⟨_, .succ (hxs.bind (hx.map fun x => "(" ++ Text.join ", " xs ++ ") => " ++ x))⟩
  | @dot b m l _ _ ih =>
    obtain ⟨x, hx⟩ := ih
    exact ⟨_, .succ (hx.map fun x => x ++ "." ++ m)⟩

/-- A fixed type has a mangled text. -/
theorem mangles (ht : Fixed M T t) : ∃ text, Mangles T t text :=
  let ⟨text, htext⟩ := hT.renders ht; ⟨text, htext.mangles⟩

end Definite

end Qll.Types
