import Qll.Check.Kind
import Qll.Proofs.Types.Traversal

/-!
# Checking plain types for a finite size

Following a plain type through its definitions comes to an end whatever the order of the steps. It
changes nothing but reports and marks: the references that the traversal finds endless are marked and
reported, and no others.
-/

namespace Qll.Check

open Source (Location)
open Qll.Types (Ty Scope Path Store Settles Plain Resolved Closed Visits Meets OnRoute Marked Ends)

/-! ## Runs that do not depend on the number of steps -/

/-- The state once an error was reported. -/
def State.reporting (s : State) (scope : Scope) (location : Option Location) (code : Diagnostic.Code)
    (message : String) : State :=
  let report : Diagnostic :=
    { severity := .error, code, location, message, notes := notesOf scope.chain }
  { s with reports := s.reports.push report }

/-- Once enough steps are allowed a computation always ends the same way. -/
def Runs {α : Type} (d : Directory) (x : Nat → CheckM α) (s : State) (a : α) (s' : State) : Prop :=
  ∃ N, ∀ n m, N ≤ n → N ≤ m → x n d (s.withLimit m) = .ok a (s'.withLimit m)

namespace Runs

variable {α β : Type} {d : Directory} {x : Nat → CheckM α} {f : Nat → α → CheckM β}
  {s s₁ s' : State} {a : α} {b : β}

/-- What does not depend on the steps runs in any number of them. -/
theorem const {x : CheckM α} (h : ∀ m, x d (s.withLimit m) = .ok a (s'.withLimit m)) :
    Runs d (fun _ => x) s a s' := ⟨0, fun _ m _ _ => h m⟩

/-- A step more may be asked for. -/
theorem succ (h : Runs d (fun n => x (n + 1)) s a s') : Runs d x s a s' := by
  obtain ⟨N, hN⟩ := h
  refine ⟨N + 1, fun n m hn hm => ?_⟩
  cases n with
  | zero => omega
  | succ n => exact hN n m (by omega) (by omega)

/-- A computation runs behind another one. -/
theorem bind (hx : Runs d x s a s₁) (hf : Runs d (fun n => f n a) s₁ b s') :
    Runs d (fun n => x n >>= f n) s b s' := by
  obtain ⟨N, hN⟩ := hx
  obtain ⟨M, hM⟩ := hf
  refine ⟨max N M, fun n m hn hm => ?_⟩
  change EStateM.bind (x n d) (fun a => f n a d) _ = _
  rw [EStateM.bind, hN n m (by omega) (by omega)]
  exact hM n m (by omega) (by omega)

/-- What a computation is may depend on the state that it starts in, but not on the limit. -/
theorem congr {y : Nat → CheckM α} (hx : Runs d x s a s')
    (h : ∀ n m, y n d (s.withLimit m) = x n d (s.withLimit m)) : Runs d y s a s' := by
  obtain ⟨N, hN⟩ := hx
  exact ⟨N, fun n m hn hm => (h n m).trans (hN n m hn hm)⟩

/-- A computation that asks how many steps it may take. -/
theorem limited (h : Runs d x s a s') : Runs d (fun _ => do x (← onTypes Types.limit)) s a s' := by
  obtain ⟨N, hN⟩ := h
  exact ⟨N, fun n m hn hm => hN m m hm hm⟩

/-- A computation on types that leaves the store. -/
theorem types {y : Nat → Types.TypeM α} (h : Settles y s.types (.ok a)) :
    Runs d (fun n => onTypes (y n)) s a s := by
  obtain ⟨N, hN⟩ := h
  refine ⟨N, fun n m hn hm => ?_⟩
  have hrun : y n (s.withLimit m).types = .ok a (s.withLimit m).types := hN n m hn hm
  simp only [onTypes, hrun]

end Runs

/-- An endless reference, its place known. -/
abbrev Found := Nat → Option Location → Prop

/-- What following types leaves, when it finds some references endless. -/
structure Outcome (F : Found) (s s' : State) : Prop where
  same : s' = { s with reports := s'.reports, types := { s.types with names := s'.types.names } }
  binding : ∀ id, s'.types.binding? id = s.types.binding? id
  marked : ∀ id, Marked s'.types id ↔ Marked s.types id ∨ ∃ l, F id l
  reports : ∀ d ∈ s.reports, d ∈ s'.reports
  recursive : ∀ d ∈ s'.reports, d.code = .recursiveType → d ∈ s.reports ∨ ∃ id l, F id l
  reported : ∀ id l, F id l → ∃ d ∈ s'.reports, d.severity = .error ∧ d.code = .recursiveType ∧
    d.location = l

namespace Outcome

variable {F G : Found} {s s₁ s' : State}

/-- Where nothing is found, nothing is changed. -/
theorem nothing (h : ∀ id l, ¬ F id l) (s : State) : Outcome F s s where
  same := rfl
  binding _ := rfl
  marked id := by simp [h]
  reports _ h := h
  recursive _ h _ := .inl h
  reported id l h' := absurd h' (h id l)

/-- What is found may be described differently. -/
theorem congr (h : Outcome F s s') (hF : ∀ id l, F id l ↔ G id l) : Outcome G s s' := by
  obtain rfl : F = G := funext fun id => funext fun l => propext (hF id l)
  exact h

/-- What is found in two steps is found in both. -/
theorem trans (h : Outcome F s s₁) (h' : Outcome G s₁ s') :
    Outcome (fun id l => F id l ∨ G id l) s s' where
  same := by rw [h'.same, h.same]
  binding id := (h'.binding id).trans (h.binding id)
  marked id := by rw [h'.marked, h.marked, or_assoc, exists_or]
  reports d hd := h'.reports d (h.reports d hd)
  recursive d hd hcode := by
    obtain hd | ⟨id, l, hG⟩ := h'.recursive d hd hcode
    · exact (h.recursive d hd hcode).imp_right fun ⟨id, l, hF⟩ => ⟨id, l, .inl hF⟩
    · exact .inr ⟨id, l, .inr hG⟩
  reported id l hfound := by
    obtain hF | hG := hfound
    · obtain ⟨d, hd, hrest⟩ := h.reported id l hF
      exact ⟨d, h'.reports d hd, hrest⟩
    · exact h'.reported id l hG

/-- A report of another kind. -/
theorem note {scope : Scope} {l : Option Location} {c : Diagnostic.Code} {message : String}
    (hcode : c ≠ .recursiveType) (s : State) :
    Outcome (fun _ _ => False) s (s.reporting scope l c message) where
  same := rfl
  binding _ := rfl
  marked id := by simp [State.reporting]
  reports d hd := Array.mem_push_of_mem _ hd
  recursive d hd h := by
    obtain hd | rfl := Array.mem_push.1 hd
    · exact .inl hd
    · exact absurd h hcode
  reported _ _ h := h.elim

end Outcome

/-! ## Single steps -/

section Steps

variable {d : Directory} {s s' : State} {N : Nat → Prop} {L : Int → Prop} {t : Ty}

/-- What follows a reading of the state is run on the state. -/
theorem check_get_run {β : Type} {g : State → CheckM β} :
    (MonadState.get >>= g : CheckM β) d s = g s d s := rfl

/-- The text of a type without variables and templates is written. -/
theorem runs_textOf (h : t.Over Types.plainParts) :
    ∃ text, Runs d (fun _ => textOf t) s text s := by
  obtain ⟨text, K, hK⟩ := Types.reads_text Types.plainParts_closed t h
  exact ⟨text, .types ⟨K, fun n m hn hm => Types.read_ok.2 ⟨hK m _ hm, rfl⟩⟩⟩

/-- A report is made. -/
theorem runs_reportError (scope : Scope) (location : Option Location) (code : Diagnostic.Code)
    (message : String) : Runs d (fun _ => reportError scope location code message) s ()
      (s.reporting scope location code message) :=
  .const fun _ => rfl

/-- Whether a type that stands for a shape has no value. -/
theorem runs_isVoid {u : Ty} (hu : Types.Resolves s.types t u) :
    ∃ void, Runs d (fun _ => onTypes (Types.isVoid t)) s void s := by
  have hvoid : ∃ void, Settles (fun _ => Types.isVoid t) s.types (.ok void) := by
    by_cases hkind : ∃ l, u = .builtin .void l
    · obtain ⟨l, rfl⟩ := hkind
      exact ⟨true, hu.limited.bind (.const fun _ => rfl)⟩
    · refine ⟨false, hu.limited.bind (.const fun _ => ?_)⟩
      split
      · exact absurd ⟨_, rfl⟩ hkind
      · rfl
  obtain ⟨void, h⟩ := hvoid
  exact ⟨void, .types h⟩

end Steps

/-! ## Following a type -/

section Follow

variable {T : Store} {L : Int → Prop} {D : String → Ty → Prop} {d : Directory} {p : Path}

/-- Following a type ends, and finds what its traversal does. -/
def Follows (d : Directory) (T : Store) (p : Path) (t : Ty) : Prop :=
  ∀ scope s, (∀ id, s.types.binding? id = T.binding? id) → ∃ s',
    Runs d (fun n => kindcheckWithin n scope p t) s () s' ∧ Outcome (Meets T p t) s s'

/-- Members are followed one by one. What is said of the states is put together from what is said of
each member, and reports of other kinds do not matter. -/
theorem runs_members {I : State → Prop} {R : List (Types.Member Ty) → State → State → Prop}
    (hnil : ∀ s, R [] s s)
    (hcons : ∀ {m rest s s₁ s₂}, R [m] s s₁ → R rest s₁ s₂ → R (m :: rest) s s₂)
    (hnote : ∀ {ms s s' scope l code message}, R ms (s.reporting scope l code message) s' →
      code ≠ .recursiveType → R ms s s')
    (hinv : ∀ {ms s s'}, I s → R ms s s' → I s')
    (hreport : ∀ {s scope l code message}, I s → I (s.reporting scope l code message))
    {whole : Ty} (hwhole : whole.Over Types.plainParts) {ms : List (Types.Member Ty)} {scope : Scope}
    (hms : ∀ m ∈ ms, ∀ s, I s → ∃ s', Runs d (fun n => kindcheckWithin n scope p m.type) s () s' ∧
      R [m] s s' ∧ ∃ u, Types.Resolves s'.types m.type u)
    (seen : List String) (s : State) (hs : I s) :
    ∃ s', Runs d (fun n => checkMembers scope whole (kindcheckWithin n scope p) seen ms) s () s' ∧
      R ms s s' := by
  induction ms generalizing seen s with
  | nil => exact ⟨s, .const fun _ => rfl, hnil s⟩
  | cons m rest ih =>
    obtain ⟨hm, hrest⟩ := List.forall_mem_cons.1 hms
    -- What is done of a member once its name was looked at.
    have hnext (s : State) (hs : I s) : ∃ s', Runs d (fun n => do
        kindcheckWithin n scope p m.type
        if ← onTypes (Types.isVoid m.type) then
          reportError scope m.location .voidValue ("member " ++ m.name ++ " cannot have type void")
        checkMembers scope whole (kindcheckWithin n scope p) (m.name :: seen) rest) s () s' ∧
          R (m :: rest) s s' := by
      obtain ⟨s₁, hrun₁, hout₁, u, hu⟩ := hm s hs
      have hs₁ : I s₁ := hinv hs hout₁
      obtain ⟨void, hvoid⟩ := runs_isVoid (d := d) hu
      cases void with
      | false =>
        obtain ⟨s₂, hrun₂, hout₂⟩ := ih hrest (m.name :: seen) s₁ hs₁
        exact ⟨s₂, hrun₁.bind (hvoid.bind hrun₂), hcons hout₁ hout₂⟩
      | true =>
        obtain ⟨s₂, hrun₂, hout₂⟩ := ih hrest (m.name :: seen) (s₁.reporting scope m.location
          .voidValue ("member " ++ m.name ++ " cannot have type void")) (hreport hs₁)
        refine ⟨s₂, hrun₁.bind (hvoid.bind ((runs_reportError scope m.location .voidValue _).bind hrun₂)),
          hcons hout₁ (hnote hout₂ (by decide))⟩
    by_cases hseen : seen.contains m.name
    · obtain ⟨text, htext⟩ := runs_textOf (d := d) (s := s) hwhole
      obtain ⟨s₂, hrun₂, hout₂⟩ := hnext (s.reporting scope m.location .duplicateMember
        ("duplicate member " ++ m.name ++ " in " ++ text)) (hreport hs)
      refine ⟨s₂, ?_, hnote hout₂ (by decide)⟩
      simp only [checkMembers, if_pos hseen]
      exact htext.bind ((runs_reportError scope m.location .duplicateMember _).bind hrun₂)
    · obtain ⟨s₂, hrun₂, hout₂⟩ := hnext s hs
      refine ⟨s₂, ?_, hout₂⟩
      simp only [checkMembers, if_neg hseen]
      exact hrun₂

/-- The members of a struct are followed one by one. -/
theorem follows_members (hT : Closed T L D) {whole : Ty} (hwhole : Resolved T L whole)
    {ms : List (Types.Member Ty)} (hvisits : ∀ m ∈ ms, Visits T p m.type)
    (hp : ∀ m ∈ ms, OnRoute T D p m.type) (hfollows : ∀ m ∈ ms, Follows d T p m.type)
    (scope : Scope) (s : State) (hs : ∀ id, s.types.binding? id = T.binding? id) :
    ∃ s', Runs d (fun n => checkMembers scope whole (kindcheckWithin n scope p) [] ms) s () s' ∧
      Outcome (fun id l => ∃ m ∈ ms, Meets T p m.type id l) s s' := by
  refine runs_members (I := fun s => ∀ id, s.types.binding? id = T.binding? id)
    (R := fun ms s s' => Outcome (fun id l => ∃ m ∈ ms, Meets T p m.type id l) s s')
    (fun s => .nothing (by simp) s) (fun h h' => (h.trans h').congr (by simp))
    (fun h hcode => ((Outcome.note hcode _).trans h).congr (by simp))
    (fun hs h id => (h.binding id).trans (hs id)) (fun hs => hs) hwhole.over (fun m hm s hs => ?_) [] s hs
  obtain ⟨s', hrun, hout⟩ := hfollows m hm scope s hs
  have hends : Ends s'.types m.type :=
    (hvisits m hm).ends (fun id => (hout.binding id).trans (hs id)) hT (hp m hm) fun id l h =>
      (hout.marked id).2 (.inr ⟨l, h⟩)
  obtain ⟨u, -, hu⟩ := hends.resolves
  exact ⟨s', hrun, hout.congr (by simp), u, hu⟩

/-- Arguments are followed one by one. -/
theorem follows_list {ts : List Ty} (hfollows : ∀ t ∈ ts, Follows d T p t) (scope : Scope)
    (s : State) (hs : ∀ id, s.types.binding? id = T.binding? id) :
    ∃ s', Runs d (fun n => ts.forM (kindcheckWithin n scope p)) s () s' ∧
      Outcome (fun id l => ∃ t ∈ ts, Meets T p t id l) s s' := by
  induction ts generalizing s with
  | nil => exact ⟨s, .const fun _ => rfl, .nothing (by simp) s⟩
  | cons t rest ih =>
    obtain ⟨ht, hrest⟩ := List.forall_mem_cons.1 hfollows
    obtain ⟨s₁, hrun₁, hout₁⟩ := ht scope s hs
    obtain ⟨s₂, hrun₂, hout₂⟩ := ih hrest s₁ fun id => (hout₁.binding id).trans (hs id)
    exact ⟨s₂, hrun₁.bind hrun₂, (hout₁.trans hout₂).congr (by simp)⟩

/-- A resolved name is not looked up again. -/
theorem resolveName_of_binding {scope : Scope} {id : Nat} {text : String} {l : Option Location}
    {b : Types.Binding} {s : State} (hb : s.types.binding? id = some b) :
    resolveName scope id text l d s = .ok () s := by
  change (if (s.types.binding? id).isSome then (pure () : CheckM Unit) else _) d s = _
  rw [if_pos (by simp [hb])]
  rfl

/-- What a resolved name stands for is looked at. -/
theorem kindcheck_name {n : Nat} {scope : Scope} {id : Nat} {text : String} {l : Option Location}
    {b : Types.Binding} {s : State} (hb : s.types.binding? id = some b) :
    kindcheckWithin (n + 1) scope p (.name id text l) d s = (match b.type with
      | .var _ | .builtin .. => pure ()
      | definition => do
        let sound ← followReference scope p l b.qualified b.qualified fun next =>
          kindcheckWithin n (b.scope.getD scope) next definition
        if !sound then onTypes (Types.setCyclicName id) : CheckM Unit) d s := by
  change EStateM.bind (resolveName scope id text l d) _ s = _
  rw [EStateM.bind, resolveName_of_binding hb]
  dsimp only
  rewrite [check_get_run, hb]
  obtain ⟨qualified, definition, inner⟩ := b
  cases definition <;> rfl

/-- A name that stands for a builtin type ends the traversal. -/
theorem kindcheck_ground {n : Nat} {scope : Scope} {id : Nat} {text : String} {l : Option Location}
    {b : Types.Binding} {s : State} (hb : s.types.binding? id = some b)
    (hdef : ¬ b.type.IsDefinition) :
    kindcheckWithin (n + 1) scope p (.name id text l) d s = .ok () s := by
  rw [kindcheck_name hb]
  obtain ⟨qualified, definition, inner⟩ := b
  cases definition with
  | builtin => rfl
  | var => rfl
  | _ => exact absurd trivial hdef

/-- A name that stands for a definition is followed along the path. -/
theorem kindcheck_definition {n : Nat} {scope : Scope} {id : Nat} {text : String}
    {l : Option Location} {b : Types.Binding} {s : State} (hb : s.types.binding? id = some b)
    (hdef : b.type.IsDefinition) : kindcheckWithin (n + 1) scope p (.name id text l) d s = (do
      let sound ← followReference scope p l b.qualified b.qualified fun next =>
        kindcheckWithin n (b.scope.getD scope) next b.type
      if !sound then onTypes (Types.setCyclicName id)) d s := by
  rw [kindcheck_name hb]
  obtain ⟨qualified, definition, inner⟩ := b
  cases definition with
  | builtin => exact hdef.elim
  | var => exact hdef.elim
  | _ => rfl

/-- The use of a name is followed, and the name marked unless it is sound. -/
theorem runs_definition {scope : Scope} {id : Nat} {text : String} {l : Option Location}
    {b : Types.Binding} {s s₁ s' : State} {sound : Bool} (hb : s.types.binding? id = some b)
    (hdef : b.type.IsDefinition)
    (hfollow : Runs d (fun n => followReference scope p l b.qualified b.qualified fun next =>
      kindcheckWithin n (b.scope.getD scope) next b.type) s sound s₁)
    (hlast : ∀ m, (if !sound then onTypes (Types.setCyclicName id) else pure () : CheckM Unit) d
      (s₁.withLimit m) = .ok () (s'.withLimit m)) :
    Runs d (fun n => kindcheckWithin n scope p (.name id text l)) s () s' :=
  .succ ((hfollow.bind ⟨0, fun _ m _ _ => hlast m⟩).congr fun _ m =>
    kindcheck_definition (s := s.withLimit m) hb hdef)

/-- An endless reference is reported and marked. -/
theorem outcome_infinite {s : State} {id : Nat} {l : Option Location} {b : Types.Binding}
    (hb : s.types.binding? id = some b) (scope : Scope) (message : String) :
    Outcome (fun id' l' => id' = id ∧ l' = l) s
      { s.reporting scope l .recursiveType message with
        types := { s.types with
          names := s.types.names.modify id fun e => { e with cyclic := true } } } where
  same := rfl
  binding j := by
    simp only [Store.binding?, Array.getElem?_modify]
    split
    · cases s.types.names[j]? <;> rfl
    · rfl
  marked j := by
    obtain ⟨e, he, -⟩ := Option.bind_eq_some_iff.1 hb
    simp only [Marked, Array.getElem?_modify]
    by_cases hj : id = j
    · subst hj
      simp [he]
    · simp [hj, Ne.symm hj]
  reports d hd := Array.mem_push_of_mem _ hd
  recursive _ _ _ := .inr ⟨id, l, rfl, rfl⟩
  reported j l' h := ⟨_, Array.mem_push_self, rfl, rfl, h.2.symm⟩

namespace Follows

section Names

variable {id : Nat} {text : String} {l : Option Location} {b : Types.Binding} (hb : T.binding? id = some b)

include hb

/-- Nothing is found behind a name that stands for no definition. -/
theorem ground (hdef : ¬ b.type.IsDefinition) : Follows d T p (.name id text l) := by
  intro scope s hs
  refine ⟨s, .succ ⟨0, fun n m _ _ => kindcheck_ground (s := s.withLimit m) ((hs id).trans hb) hdef⟩,
    .nothing ?_ s⟩
  rintro id' l' (⟨hb', hdef', -⟩ | ⟨hb', hdef', -, -⟩)
  all_goals
    obtain rfl := Option.some.inj (hb'.symm.trans hb)
    exact hdef hdef'

variable (hdef : b.type.IsDefinition)

include hdef

/-- A name whose definition was entered before, with a pointer in between, is not followed again. -/
theorem accepted (href : p.reference b.qualified = .accepted) : Follows d T p (.name id text l) := by
  intro scope s hs
  have hfollow : Runs d (fun n => followReference scope p l b.qualified b.qualified fun next =>
      kindcheckWithin n (b.scope.getD scope) next b.type) s true s := by
    simp only [followReference, href]
    exact .const fun _ => rfl
  refine ⟨s, runs_definition ((hs id).trans hb) hdef hfollow fun _ => rfl, .nothing ?_ s⟩
  simp [Types.meets_name_iff hb hdef, href]

/-- A name whose definition is part of itself is reported and marked. -/
theorem infinite (href : p.reference b.qualified = .infinite) : Follows d T p (.name id text l) := by
  intro scope s hs
  have hbinding := (hs id).trans hb
  let message := "recursive type " ++ b.qualified ++ " has infinite size"
  have hfollow : Runs d (fun n => followReference scope p l b.qualified b.qualified fun next =>
      kindcheckWithin n (b.scope.getD scope) next b.type) s false
        (s.reporting scope l .recursiveType message) := by
    simp only [followReference, href]
    exact .const fun _ => rfl
  refine ⟨_, runs_definition hbinding hdef hfollow fun _ => rfl,
    (outcome_infinite hbinding scope message).congr ?_⟩
  simp [Types.meets_name_iff hb hdef, href]

/-- Behind a name that is entered is found what is found in its definition. -/
theorem enter (href : p.reference b.qualified = .enter (p.define b.qualified))
    (h : Follows d T (p.define b.qualified) b.type) : Follows d T p (.name id text l) := by
  intro scope s hs
  obtain ⟨s', hrun, hout⟩ := h (b.scope.getD scope) s hs
  have hfollow : Runs d (fun n => followReference scope p l b.qualified b.qualified fun next =>
      kindcheckWithin n (b.scope.getD scope) next b.type) s true s' := by
    simp only [followReference, href]
    exact hrun.bind (.const fun _ => rfl)
  refine ⟨s', runs_definition ((hs id).trans hb) hdef hfollow fun _ => rfl, hout.congr ?_⟩
  simp [Types.meets_name_iff hb hdef, href]

end Names

variable {e r : Ty} {as : List Ty} {n : Int} {l : Option Location}

/-- Behind a pointer is found what is found in its target. -/
theorem pointer (h : Follows d T p.pointer e) : Follows d T p (.pointer e l) := fun scope s hs =>
  let ⟨s', hrun, hout⟩ := h scope s hs
  ⟨s', .succ hrun, hout.congr fun _ _ => ⟨.pointer, fun | .pointer h => h⟩⟩

/-- Behind a slice is found what is found in its elements. -/
theorem slice (h : Follows d T p.pointer e) : Follows d T p (.slice e l) := fun scope s hs =>
  let ⟨s', hrun, hout⟩ := h scope s hs
  ⟨s', .succ hrun, hout.congr fun _ _ => ⟨.slice, fun | .slice h => h⟩⟩

/-- An array without a length is followed like a pointer. -/
theorem unsized (h : Follows d T p.pointer e) : Follows d T p (.array e Types.unsized l) := by
  intro scope s hs
  obtain ⟨s', hrun, hout⟩ := h scope s hs
  refine ⟨s', .succ hrun, hout.congr fun _ _ => ⟨.unsized, fun h => ?_⟩⟩
  cases h with
  | unsized h => exact h
  | element hn _ => exact absurd hn (by decide)

/-- The elements of an array are part of it. -/
theorem element (hn : 0 ≤ n) (h : Follows d T p e) : Follows d T p (.array e n l) := by
  intro scope s hs
  have hsized : n ≠ Types.unsized := by
    rintro rfl
    exact absurd hn (by decide)
  obtain ⟨s', hrun, hout⟩ := h scope s hs
  refine ⟨s', .succ ?_, hout.congr fun _ _ => ⟨.element hn, fun h => ?_⟩⟩
  · simp only [kindcheckWithin, if_neg hsized, if_neg (Int.not_lt.2 hn)]
    exact hrun
  · cases h with
    | unsized => exact absurd rfl hsized
    | element _ h => exact h

/-- A length below zero is reported, and the elements are not looked at. -/
theorem malformed (hn : n < 0) (hu : n ≠ Types.unsized) : Follows d T p (.array e n l) := by
  intro scope s hs
  refine ⟨s.reporting scope l .invalidLength ("invalid array length " ++ Text.decimal n), .succ ?_,
    (Outcome.note (by decide) s).congr ?_⟩
  · simp only [kindcheckWithin, if_neg hu, if_pos hn]
    exact runs_reportError scope l .invalidLength _
  · intro id l'
    refine ⟨False.elim, fun h => ?_⟩
    cases h with
    | unsized => exact hu rfl
    | element hn' _ => omega

/-- In a function is found what is found in its arguments, and in its result. -/
theorem function (has : ∀ a ∈ as, Follows d T p.function a) (hr : Follows d T p.function r) :
    Follows d T p (.function as r l) := by
  intro scope s hs
  obtain ⟨s₁, hrun₁, hout₁⟩ := follows_list has scope s hs
  obtain ⟨s₂, hrun₂, hout₂⟩ := hr scope s₁ fun id => (hout₁.binding id).trans (hs id)
  refine ⟨s₂, .succ (hrun₁.bind hrun₂), (hout₁.trans hout₂).congr fun _ _ => ⟨?_, fun h => ?_⟩⟩
  · rintro (⟨a, ha, h⟩ | h)
    · exact .argument ha h
    · exact .result h
  · cases h with
    | argument ha h => exact .inl ⟨_, ha, h⟩
    | result h => exact .inr h

/-- In a struct is found what is found in its members. -/
theorem struct {ms : List (Types.Member Ty)} (hT : Closed T L D) (ht : Resolved T L (.struct ms l))
    (hvisits : ∀ m ∈ ms, Visits T p.struct m.type) (hp : ∀ m ∈ ms, OnRoute T D p.struct m.type)
    (h : ∀ m ∈ ms, Follows d T p.struct m.type) : Follows d T p (.struct ms l) := by
  intro scope s hs
  obtain ⟨s', hrun, hout⟩ := follows_members hT ht hvisits hp h scope s hs
  refine ⟨s', .succ hrun, hout.congr fun _ _ => ⟨fun ⟨m, hm, h⟩ => .member hm h, fun h => ?_⟩⟩
  cases h with
  | member hm h => exact ⟨_, hm, h⟩

end Follows

/-- Following a plain type ends, and finds what its traversal does. -/
theorem follows_of_visits (hT : Closed T L D) {t : Ty} (h : Visits T p t) (ht : Resolved T L t)
    (hp : OnRoute T D p t) : Follows d T p t := by
  induction h with
  | builtin => exact fun scope s _ => ⟨s, .succ (.const fun _ => rfl), .nothing nofun s⟩
  | ground hb hdef => exact .ground hb hdef
  | accepted hb hdef href => exact .accepted hb hdef href
  | infinite hb hdef href => exact .infinite hb hdef href
  | enter hb hdef href _ ih =>
    exact .enter hb hdef href (ih (hT.plain hb) (hp.enter hb (hT.declares hb hdef)))
  | malformed hn hu => exact .malformed hn hu
  | pointer _ ih =>
    cases ht with
    | pointer ht => exact .pointer (ih ht (hp.pointer .pointer))
  | slice _ ih =>
    cases ht with
    | slice ht => exact .slice (ih ht (hp.pointer .slice))
  | unsized _ ih =>
    cases ht with
    | array _ ht => exact .unsized (ih ht (hp.pointer .unsized))
  | element hn _ ih =>
    cases ht with
    | array _ ht => exact .element hn (ih ht (hp.unrecorded (.element hn) (by simp)))
  | struct hms ih =>
    have hroutes {m : Types.Member Ty} (hm : m ∈ _) := hp.member (.member hm)
    refine .struct hT ht hms (fun m hm => hroutes hm) fun m hm => ih m hm ?_ (hroutes hm)
    cases ht with
    | struct h => exact h m hm
  | function _ _ iha ihr =>
    cases ht with
    | function hplain hplain' =>
      exact .function (fun a ha => iha a ha (hplain a ha) (hp.function (.argument ha)))
        (ihr hplain' (hp.function .result))

end Follow

end Qll.Check
