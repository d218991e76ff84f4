import Qll.Proofs.Check.Resolving
import Qll.Proofs.Types.Entries

/-!
# Accepted types

A type that is followed through its definitions without an error has a finite layout: whatever lies
inside it by value was followed too, in the order in which a size asks for it.
-/

namespace Qll.Check

open Qll.Computation
open Source (Location)
open Qll.Types (Ty Scope Path Store Binding Ranged Steady Extends Moves Layout TypeM)

/-! ## States -/

/-- The tables and declared types refer to entries of the store. -/
structure Ready (s : State) : Prop where
  types : Steady s.types
  spaces : ∀ n ∈ s.spaces, ∀ p ∈ n.types, Ranged s.types p.2.type ∧ ∀ scope ∈ p.2.scope, scope.OnlyVars
  items : ∀ item ∈ s.typeItems, Ranged s.types item.type ∧ item.scope.OnlyVars

/-- No error was reported. -/
def State.Clean (s : State) : Prop := ∀ d ∈ s.reports, d.severity ≠ .error

/-- The errors of a state are its reports of that severity. -/
theorem State.errors_eq (s : State) : s.errors = s.reports.toList.countP (·.severity = .error) := by
  have hcount (l : List Diagnostic) (n : Nat) :
      l.foldl (fun n d => if d.severity = .error then n + 1 else n) n =
        n + l.countP (·.severity = .error) := by
    induction l generalizing n with
    | nil => rfl
    | cons d l ih =>
      rw [List.foldl_cons, ih, List.countP_cons]
      by_cases hd : d.severity = .error
      · simp only [hd, if_true, decide_true]
        omega
      · simp only [hd, if_false, decide_false, Bool.false_eq_true]
        omega
  simpa [errors, ← Array.foldl_toList] using hcount s.reports.toList 0

/-- Where no errors are counted none was reported. -/
theorem State.clean_of_accepted {s : State} (h : s.failed = false) : s.Clean := by
  simpa [Clean, failed, errors_eq] using h

/-- Types are looked at: the store learns more, and reports are made. -/
structure Onto (s s' : State) : Prop where
  types : Extends s.types s'.types
  reports : ∀ d ∈ s.reports, d ∈ s'.reports
  same : s' = { s with types := s'.types, reports := s'.reports }

/-- A state is onto itself. -/
theorem Onto.refl (s : State) : Onto s s := ⟨.refl _, fun _ h => h, rfl⟩

/-- What is learned in two steps is learned in both. -/
theorem Onto.trans {s s₁ s' : State} (h : Onto s s₁) (h' : Onto s₁ s') : Onto s s' :=
  ⟨h.types.trans h'.types, fun d hd => h'.reports d (h.reports d hd), by rw [h'.same, h.same]⟩

/-- Without errors in the end there were none before. -/
theorem Onto.clean {s s' : State} (h : Onto s s') (hs' : s'.Clean) : s.Clean :=
  fun d hd => hs' d (h.reports d hd)

/-- The tables stay in order while more is learned. -/
theorem Ready.onto {s s' : State} (hs : Ready s) (h : Onto s s') (hs' : Steady s'.types) : Ready s' where
  types := hs'
  spaces n hn p hp := by
    rw [h.same] at hn
    obtain ⟨ht, hscope⟩ := hs.spaces n hn p hp
    exact ⟨ht.extends h.types, hscope⟩
  items item hitem := by
    rw [h.same] at hitem
    obtain ⟨ht, hscope⟩ := hs.items item hitem
    exact ⟨ht.extends h.types, hscope⟩

/-! ## Computations -/

/-- A computation that ends well leaves the tables, and gives what is said. -/
def Advances {α : Type} (s : State) (Q : State → α → Prop) (x : CheckM α) : Prop :=
  ∀ a s', x Program.directory s = .ok a s' → Steady s'.types ∧ Onto s s' ∧ Q s' a

namespace Advances

variable {α β : Type} {s : State} {Q Q' : State → α → Prop} {R : State → β → Prop} {x : CheckM α}
  {f : α → CheckM β}

/-- A fault does not end well. -/
theorem throw {e : Fault} : Advances s Q (MonadExcept.throw e : CheckM α) :=
  fun _ _ h => absurd h check_throw_ok

/-- A value may be given that is as it is said. -/
theorem pure (hs : Ready s) {a : α} (h : Q s a) : Advances s Q (Pure.pure a) := by
  intro b s' hrun
  obtain ⟨rfl, rfl⟩ := check_pure_ok.1 hrun
  exact ⟨hs.types, .refl s, h⟩

/-- A computation may come behind another one, and use what that gives. -/
theorem bind (hs : Ready s) (hx : Advances s Q x)
    (hf : ∀ a s', Ready s' → Onto s s' → Q s' a → Advances s' R (f a)) : Advances s R (x >>= f) := by
  intro b s'' hrun
  obtain ⟨a, s', hxs, hfs⟩ := check_bind_ok.1 hrun
  obtain ⟨hs', honto, ha⟩ := hx a s' hxs
  obtain ⟨hs'', honto', hb⟩ := hf a s' (hs.onto honto hs') honto ha b s'' hfs
  exact ⟨hs'', honto.trans honto', hb⟩

/-- What is said may be weakened. -/
theorem mono (hx : Advances s Q x) (h : ∀ a s', Onto s s' → Q s' a → Q' s' a) : Advances s Q' x :=
  fun a s' hrun => (hx a s' hrun).imp_right fun ⟨honto, ha⟩ => ⟨honto, h a s' honto ha⟩

/-- Either of two computations may be taken. -/
theorem ite {c : Prop} [Decidable c] {y : CheckM α} (hx : c → Advances s Q x)
    (hy : ¬ c → Advances s Q y) : Advances s Q (if c then x else y) := by
  split
  · next h => exact hx h
  · next h => exact hy h

/-- What follows a reading of the state is given the state. -/
theorem get {g : State → CheckM α} (h : Advances s Q (g s)) : Advances s Q (MonadState.get >>= g) :=
  fun a s' hrun => h a s' (check_get_ok.1 hrun)

/-- A computation on types. -/
theorem types {x : TypeM α} {K : Store → α → Prop} (hx : Moves Extends s.types K x) :
    Advances s (fun s' a => K s'.types a) (onTypes x) := by
  intro a s' hrun
  obtain ⟨T, hT, rfl⟩ := onTypes_ok hrun
  obtain ⟨hsteady, hextends, ha⟩ := hx a T hT
  exact ⟨hsteady, ⟨hextends, fun _ h => h, rfl⟩, ha⟩

/-- A reading of types. -/
theorem read (hs : Ready s) {g : Store → Except Fault α} (h : ∀ a, g s.types = .ok a → Q s a) :
    Advances s Q (onTypes (Types.read g)) := by
  intro a s' hrun
  obtain ⟨hg, rfl⟩ := onTypes_read hrun
  exact ⟨hs.types, .refl _, h a hg⟩

/-- Rendering a type leaves the tables. -/
theorem textOf (hs : Ready s) (t : Ty) : Advances s (fun _ _ => True) (textOf t) :=
  .read hs fun _ _ => trivial

/-- The texts of some types. -/
theorem texts (hs : Ready s) (ts : List Ty) :
    Advances s (fun _ _ => True) (ts.mapM Check.textOf) := by
  induction ts generalizing s with
  | nil => exact .pure hs trivial
  | cons t ts ih =>
    rw [List.mapM_cons]
    refine .bind hs (.textOf hs t) fun _ s₁ hs₁ _ _ => .bind hs₁ (ih hs₁) fun _ s₂ hs₂ _ _ => ?_
    exact .pure hs₂ trivial

/-- An error is reported. -/
theorem reportError (hs : Ready s) {scope : Scope} {l : Option Location} {code : Diagnostic.Code}
    {message : String} :
    Advances s (fun s' _ => ¬ s'.Clean) (reportError scope l code message) := by
  intro u s' hrun
  obtain rfl := check_modify_ok.1 hrun
  exact ⟨hs.types, ⟨.refl _, fun _ h => Array.mem_push_of_mem _ h, rfl⟩,
    fun h => h _ Array.mem_push_self rfl⟩

/-- Going through a list leaves the tables if each step does. -/
theorem forM (hs : Ready s) {g : α → CheckM PUnit} {l : List α}
    (h : ∀ a ∈ l, ∀ s', Ready s' → Onto s s' → Advances s' (fun _ _ => True) (g a)) :
    Advances s (fun _ _ => True) (l.forM g) := by
  induction l generalizing s with
  | nil => exact .pure hs trivial
  | cons a l ih =>
    change Advances s _ (g a >>= fun _ => l.forM g)
    refine .bind hs (h a (by simp) s hs (.refl s)) fun _ s₁ hs₁ honto₁ _ => ?_
    exact ih hs₁ fun b hb s' hs' honto => h b (by simp [hb]) s' hs' (honto₁.trans honto)

end Advances

/-! ## Names -/

section Names

variable {s : State} {scope : Scope}

/-- What a name stands for refers to entries of the store. -/
theorem Finds.ranged (hs : Ready s) (hscope : scope.OnlyVars) {name : String} {b : Binding}
    (h : Finds scope s name b) : Ranged s.types b.type ∧ ∀ scope ∈ b.scope, scope.OnlyVars := by
  obtain ⟨t, ht, rfl⟩ | ⟨kind, -, rfl⟩ | ⟨space, -, hfind⟩ := h.cases
  · obtain ⟨v, hv⟩ := hscope (name, t) ht
    obtain rfl : t = .var v := hv
    exact ⟨.var, by simp⟩
  · exact ⟨.builtin, by simp⟩
  · obtain ⟨entry, hentry, leaf, hleaf⟩ | ⟨kind, rfl⟩ := Program.findType_cases hfind
    · exact hs.spaces entry hentry _ hleaf
    · exact ⟨.builtin, by simp⟩

/-- A name is looked up. -/
theorem advances_lookupType (hs : Ready s) (hscope : scope.OnlyVars) (text : String) :
    Advances s (fun s' r => s' = s ∧ ∀ b, r = .ok (some b) →
      Ranged s.types b.type ∧ ∀ scope ∈ b.scope, scope.OnlyVars) (lookupType scope text) := by
  intro r s' hrun
  obtain rfl := lookupType_state hrun
  refine ⟨hs.types, .refl _, rfl, fun b hb => ?_⟩
  subst hb
  exact Finds.ranged hs hscope hrun

/-- A name is resolved. -/
theorem advances_resolveName (hs : Ready s) (hscope : scope.OnlyVars) {id : Nat}
    (hid : id < s.types.names.size) (text : String) (l : Option Location) :
    Advances s (fun s' _ => (s'.types.binding? id).isSome) (resolveName scope id text l) := by
  refine .get (.ite (fun h => .pure hs h) fun hnone => ?_)
  have hset {s₁ : State} (hs₁ : Ready s₁) (htypes : s₁.types = s.types) {b : Binding}
      (hb : Ranged s.types b.type ∧ ∀ scope ∈ b.scope, scope.OnlyVars) :
      Advances s₁ (fun s' _ => (s'.types.binding? id).isSome) (onTypes (Types.setBinding id b)) := by
    have hbound : s₁.types.binding? id = none := by simpa [htypes] using hnone
    refine (Advances.types (.update (hs₁.types.bind_name hbound (htypes ▸ hb)))).mono fun _ s' _ h => ?_
    rw [h, htypes]
    simp only [Store.binding?, Array.getElem?_modify]
    simp [hid]
  -- A name that is not found is reported, and stands for the error type.
  have hfailed (code : Diagnostic.Code) (message : String) : Advances s
      (fun s' _ => (s'.types.binding? id).isSome) (do
        reportError scope l code message
        onTypes (Types.setBinding id { qualified := text, type := .error })) := by
    intro u s' hrun
    obtain ⟨_, s₁, hreport, hrun⟩ := check_bind_ok.1 hrun
    obtain ⟨hs₁, honto, -⟩ := Advances.reportError hs _ s₁ hreport
    obtain ⟨hs', honto', hid⟩ := hset (hs.onto honto hs₁) (report_types hreport).1
      ⟨.builtin, by simp⟩ u s' hrun
    exact ⟨hs', honto.trans honto', hid⟩
  refine .bind hs (advances_lookupType hs hscope text) fun r s₁ _ _ hr => ?_
  obtain ⟨rfl, hfound⟩ := hr
  obtain message | (_ | b) := r
  · exact hfailed .ambiguous message
  · exact hfailed .unknownType _
  · exact hset hs rfl (hfound b rfl)

/-- An application that cannot have an instance is reported. -/
theorem advances_checkApplication (hs : Ready s) (id head : Nat) (text : String) (given : Nat)
    (l : Option Location) :
    Advances s (fun _ _ => True) (checkApplication scope id head text given l) := by
  have hset {s₁ : State} (hs₁ : Ready s₁) :
      Advances s₁ (fun _ _ => True) (onTypes (Types.setResult id .error)) :=
    (Advances.types (.update (hs₁.types.set_result .builtin (.inr rfl)))).mono fun _ _ _ _ => trivial
  refine .bind hs (.read (Q := fun _ _ => True) hs fun _ _ => trivial) fun target s₁ hs₁ _ _ => ?_
  refine .bind hs₁ (.read (Q := fun _ _ => True) hs₁ fun _ _ => trivial) fun _ s₂ hs₂ _ _ => ?_
  refine .ite (fun _ => hset hs₂) fun _ => ?_
  split
  · refine .bind hs₂ (.types (Types.moves_templateEntry hs₂.types _)) fun e s₃ hs₃ _ _ => ?_
    exact .ite (fun _ => .bind hs₃ (.reportError hs₃) fun _ s₄ hs₄ _ _ => hset hs₄)
      fun _ => .pure hs₃ trivial
  · exact .bind hs₂ (.reportError hs₂) fun _ s₃ hs₃ _ _ => hset hs₃

/-- The names of a type are resolved. -/
theorem advances_bindNamesWithin (hs : Ready s) (hscope : scope.OnlyVars) (n : Nat) {t : Ty}
    (ht : Ranged s.types t) : Advances s (fun _ _ => True) (bindNamesWithin scope n t) := by
  induction n generalizing s t with
  | zero => exact .throw
  | succ n ih =>
    unfold bindNamesWithin
    cases ht with
    | builtin => exact .pure hs trivial
    | @name id text l h => exact (advances_resolveName hs hscope h text l).mono fun _ _ _ _ => trivial
    | pointer h => exact ih hs h
    | slice h => exact ih hs h
    | array h => exact ih hs h
    | dot h => exact ih hs h
    | struct h => exact .forM hs fun m hm s' hs' honto => ih hs' ((h m hm).extends honto.types)
    | function has hr =>
      refine .bind hs (.forM hs fun a ha s' hs' honto => ih hs' ((has a ha).extends honto.types))
        fun _ s₁ hs₁ honto₁ _ => ?_
      exact ih hs₁ (hr.extends honto₁.types)
    | @apply id head text as l hid hhead has =>
      refine .get (.bind hs (advances_resolveName hs hscope hhead text l) fun _ s₁ hs₁ honto₁ _ => ?_)
      refine .bind hs₁ (.forM hs₁ fun a ha s' hs' honto =>
        ih hs' ((has a ha).extends (honto₁.trans honto).types)) fun _ s₂ hs₂ _ _ => ?_
      exact .ite (fun _ => advances_checkApplication hs₂ id head text _ l) fun _ => .pure hs₂ trivial
    | @var v =>
      refine .get ?_
      rw [hs.types.unbound]
      exact .pure hs trivial
    | template =>
      refine .bind hs (.types (Types.moves_templateEntry hs.types _)) fun e s₁ hs₁ honto₁ he => ?_
      exact ih hs₁ ((hs.types.body he.2).1.extends honto₁.types)

/-- The names of a type are resolved. -/
theorem advances_bindNames (hs : Ready s) (hscope : scope.OnlyVars) {t : Ty} (ht : Ranged s.types t) :
    Advances s (fun _ _ => True) (bindNames scope t) :=
  .bind hs (.types (.limit hs.types)) fun n _ hs' honto _ =>
    advances_bindNamesWithin hs' hscope n (ht.extends honto.types)

end Names

/-! ## Following types -/

section Follow

variable {s : State} {scope : Scope}

/-- A layout that ends, whatever lengths are written. -/
abbrev Finite (s : State) (t : Ty) : Prop := Layout s.types (· ≠ Types.unsized) True t

/-- A layout that ends still ends when more was learned. -/
theorem Finite.onto {s s' : State} {t : Ty} (h : Finite s t) (honto : Onto s s') : Finite s' t :=
  Layout.onward h honto.types.onward

/-- Members are checked one by one. -/
theorem advances_checkMembers {whole : Ty} {check : Ty → CheckM Unit} {C : Prop}
    {ms : List (Types.Member Ty)} (hs : Ready s) (hms : ∀ m ∈ ms, Ranged s.types m.type)
    (hcheck : ∀ m ∈ ms, ∀ s', Ready s' → Onto s s' →
      Advances s' (fun s'' _ => C → s''.Clean → Finite s'' m.type) (check m.type)) (seen : List String) :
    Advances s (fun s' _ => C → s'.Clean → ∀ m ∈ ms, Finite s' m.type)
      (checkMembers scope whole check seen ms) := by
  induction ms generalizing s seen with
  | nil => exact .pure hs fun _ _ => by simp
  | cons m rest ih =>
    obtain ⟨hm, hrest⟩ := List.forall_mem_cons.1 hms
    -- What is done once the name of the member was looked at.
    have hnext {s₁ : State} (hs₁ : Ready s₁) (honto₁ : Onto s s₁) :
        Advances s₁ (fun s' _ => C → s'.Clean → ∀ x ∈ m :: rest, Finite s' x.type) (do
          check m.type
          if ← onTypes (Types.isVoid m.type) then
            reportError scope m.location .voidValue ("member " ++ m.name ++ " cannot have type void")
          checkMembers scope whole check (m.name :: seen) rest) := by
      refine .bind hs₁ (hcheck m (by simp) s₁ hs₁ honto₁) fun _ s₂ hs₂ honto₂ hlayout => ?_
      have htail {s₃ : State} (hs₃ : Ready s₃) (honto₃ : Onto s₂ s₃) :
          Advances s₃ (fun s' _ => C → s'.Clean → ∀ x ∈ m :: rest, Finite s' x.type)
            (checkMembers scope whole check (m.name :: seen) rest) := by
        have honto : Onto s s₃ := (honto₁.trans honto₂).trans honto₃
        refine (ih hs₃ (fun x hx => (hrest x hx).extends honto.types) (fun x hx s' hs' h =>
          hcheck x (by simp [hx]) s' hs' (honto.trans h)) _).mono fun _ s' honto' h hC hclean => ?_
        have honto₄ := honto₃.trans honto'
        simpa using ⟨(hlayout hC (honto₄.clean hclean)).onto honto₄, h hC hclean⟩
      refine .bind hs₂ (.types (Types.moves_isVoid hs₂.types (hm.extends (honto₁.trans honto₂).types)))
        fun _ s₃ hs₃ honto₃ _ => .ite (fun _ => ?_) fun _ => htail hs₃ honto₃
      exact .bind hs₃ (.reportError hs₃) fun _ s₄ hs₄ honto₄ _ => htail hs₄ (honto₃.trans honto₄)
    refine .ite (fun _ => ?_) fun _ => hnext hs (.refl s)
    refine .bind hs (.textOf hs whole) fun _ s₁ hs₁ honto₁ _ => ?_
    exact .bind hs₁ (.reportError hs₁) fun _ s₂ hs₂ honto₂ _ => hnext hs₂ (honto₁.trans honto₂)

/-- The use of a name is followed. It is sound unless an error was reported, and then the definition
was followed too. -/
theorem advances_followReference {path : Path} {l : Option Location} {name label : String}
    {check : Path → CheckM Unit} {t : Ty} (hs : Ready s)
    (hcheck : ∀ next, (path.Inline → next.Inline) →
      Advances s (fun s' _ => next.Inline → s'.Clean → Finite s' t) (check next)) :
    Advances s (fun s' sound => path.Inline → s'.Clean → sound = true ∧ Finite s' t)
      (followReference scope path l name label check) := by
  unfold followReference
  obtain ⟨hpassed, hp⟩ | ⟨-, -, hp⟩ | ⟨-, hp⟩ := path.reference_cases name
  · rw [hp]
    exact .pure hs fun hinline => by simp [hinline.passed] at hpassed
  · rw [hp]
    refine .bind hs (.reportError hs) fun _ s₁ hs₁ _ h => .pure hs₁ fun _ hclean => absurd hclean h
  · rw [hp]
    refine .bind hs (hcheck _ fun hinline => hinline.define name) fun _ s₁ hs₁ _ h => ?_
    exact .pure hs₁ fun hinline hclean => ⟨rfl, h (hinline.define name) hclean⟩

/-- A member type without a member is reported. -/
theorem advances_checkDot {base : Ty} (hs : Ready s) (hbase : Ranged s.types base) (member : String)
    (l : Option Location) : Advances s (fun _ _ => True) (checkDot scope base member l) := by
  have hreport {s₁ : State} (hs₁ : Ready s₁) (message : String → String) :
      Advances s₁ (fun _ _ => True) (do
        reportError scope l .unknownMember (message (← textOf base))) :=
    .bind hs₁ (.textOf hs₁ base) fun _ s₂ hs₂ _ _ => (Advances.reportError hs₂).mono fun _ _ _ _ => trivial
  refine .bind hs (.types (Types.moves_resolve hs.types hbase)) fun shape s₁ hs₁ _ hshape => ?_
  refine .bind hs₁ (.read (Q := fun s' _ => s' = s₁) hs₁ fun _ _ => rfl) fun _ s₂ hs₂ _ heq => ?_
  subst heq
  refine .ite (fun _ => .pure hs₂ trivial) fun _ => ?_
  cases hshape with
  | struct hms =>
    refine .bind hs₂ (.types (Types.moves_findMember hs₂.types hms member)) fun _ s₃ hs₃ _ _ => ?_
    exact .ite (fun _ => hreport hs₃ fun text => "type " ++ text ++ " has no member " ++ member)
      fun _ => .pure hs₃ trivial
  | _ => exact hreport hs₂ fun text => "type " ++ text ++ " has no members"

/-- A name stands for what it was resolved to, or for the error type. -/
theorem finite_of_binding {s s' : State} (honto : Onto s s') {id : Nat} {b : Binding}
    (hb : s.types.binding? id = some b) (h : Finite s' b.type) (text : String) (l : Option Location) :
    Finite s' (.name id text l) := by
  obtain hu | hu := Types.target_of_binding hb text
  · exact (honto.types.onward.target hu).elim (.name · h) (.name · .builtin)
  · exact (honto.types.onward.target hu).elim (.name · .builtin) (.name · .builtin)

/-- What is followed in a number of steps without an error, and has no indirection before it, has a finite
layout. -/
def LayoutsWithin (n : Nat) : Prop :=
  ∀ {s : State} {scope : Scope} (path : Path) {t : Ty}, Ready s → scope.OnlyVars → Ranged s.types t →
    Advances s (fun s' _ => path.Inline → s'.Clean → Finite s' t) (kindcheckWithin n scope path t)

section Steps

variable {n : Nat} (ih : LayoutsWithin n) (hs : Ready s) (hscope : scope.OnlyVars) (path : Path)

include ih hs hscope

/-- A name is followed to its definition. -/
theorem advances_kindcheckName {id : Nat} (hid : id < s.types.names.size) (text : String) (l : Option Location) :
    Advances s (fun s' _ => path.Inline → s'.Clean → Finite s' (.name id text l))
      (kindcheckWithin (n + 1) scope path (.name id text l)) := by
  unfold kindcheckWithin
  refine .bind hs (advances_resolveName hs hscope hid text l) fun _ s₁ hs₁ honto₁ hbound => ?_
  obtain ⟨b, hb⟩ := Option.isSome_iff_exists.1 hbound
  obtain ⟨hrange, hinner⟩ := hs₁.types.binding hb
  have hfollow : Advances s₁ (fun s' _ => path.Inline → s'.Clean → Finite s' (.name id text l)) (do
      let sound ← followReference scope path l b.qualified b.qualified fun next =>
        kindcheckWithin n (b.scope.getD scope) next b.type
      if !sound then onTypes (Types.setCyclicName id)) := by
    have hscope' : (b.scope.getD scope).OnlyVars := by
      cases hb : b.scope with
      | none => exact hscope
      | some inner => exact hinner inner hb
    refine .bind hs₁ (advances_followReference hs₁ fun next _ => ih next hs₁ hscope' hrange)
      fun sound s₂ hs₂ honto₂ hsound => .ite (fun hunsound => ?_) fun _ => ?_
    · refine (Advances.types (.update (hs₂.types.close_name id))).mono fun _ s' honto _ hinline hclean => ?_
      simp [(hsound hinline (honto.clean hclean)).1] at hunsound
    · exact .pure hs₂ fun hinline hclean =>
        finite_of_binding honto₂ hb (hsound hinline hclean).2 text l
  refine .get ?_
  rw [hb]
  obtain ⟨qualified, definition, inner⟩ := b
  cases definition with
  | var v =>
    exact .pure hs₁ fun _ _ => finite_of_binding (.refl s₁) hb (.unbound trivial (hs₁.types.unbound v)) text l
  | builtin => exact .pure hs₁ fun _ _ => finite_of_binding (.refl s₁) hb .builtin text l
  | _ => exact hfollow

/-- An application is followed to its instance, which is made at the latest now. -/
theorem advances_kindcheckApply {id head : Nat} {as : List Ty} (hid : id < s.types.applies.size)
    (hhead : head < s.types.names.size) (has : ∀ a ∈ as, Ranged s.types a) (text : String)
    (l : Option Location) :
    Advances s (fun s' _ => path.Inline → s'.Clean → Finite s' (.apply id head text as l))
      (kindcheckWithin (n + 1) scope path (.apply id head text as l)) := by
  unfold kindcheckWithin
  refine .bind hs (advances_bindNames hs hscope (.apply hid hhead has)) fun _ s₁ hs₁ honto₁ _ => ?_
  refine .bind hs₁ (.types (Types.moves_applied hs₁.types (hid.trans_le honto₁.types.applies) head text
    fun a ha => (has a ha).extends honto₁.types)) fun result s₂ hs₂ honto₂ hresult => ?_
  obtain ⟨hrange, hinstance⟩ := hresult
  -- The application stands for its instance, now and later.
  have hstands {s' : State} (honto : Onto s₂ s') (h : Finite s' result) :
      Finite s' (.apply id head text as l) :=
    (honto.types.onward.instance? hinstance).elim (.apply · h) (.apply · .builtin)
  refine .bind hs₂ (.read (Q := fun s' bad => s' = s₂ ∧ (bad = true → Finite s₂ result)) hs₂
    fun bad hbad => ⟨rfl, fun h => hs₂.types.layout_of_isError (h ▸ hbad)⟩) fun bad s₃ _ _ hbad => ?_
  obtain ⟨rfl, hbad⟩ := hbad
  refine .ite (fun h => .pure hs₂ fun _ _ => hstands (.refl _) (hbad h)) fun _ => .get ?_
  have hinner : (((s₃.types.binding? head).bind (·.scope)).getD scope).OnlyVars := by
    cases hb : (s₃.types.binding? head).bind (·.scope) with
    | none => exact hscope
    | some inner =>
      obtain ⟨b, hb, hinner⟩ := Option.bind_eq_some_iff.1 hb
      exact (hs₂.types.binding hb).2 inner hinner
  refine .bind hs₂ (.read (Q := fun _ _ => True) hs₂ fun _ _ => trivial) fun name s₄ hs₄ honto₄ _ => ?_
  refine .bind hs₄ (.read (Q := fun _ _ => True) hs₄ fun _ _ => trivial) fun _ s₅ hs₅ honto₅ _ => ?_
  refine .bind hs₅ (.texts hs₅ as) fun _ s₆ hs₆ honto₆ _ => ?_
  have honto := (honto₄.trans honto₅).trans honto₆
  cases hexpand : path.expand? with
  | none =>
    refine .bind hs₆ (.reportError hs₆) fun _ s₇ hs₇ _ hdirty => ?_
    exact (Advances.types (.update (hs₇.types.close_apply id))).mono fun _ s' honto _ _ hclean =>
      absurd (honto.clean hclean) hdirty
  | some deeper =>
    refine .bind hs₆ (advances_followReference hs₆ fun next _ =>
      ih next hs₆ hinner (hrange.extends honto.types)) fun sound s₇ hs₇ honto₇ hsound => ?_
    have hdeeper (h : path.Inline) : deeper.Inline := h.expand hexpand
    refine .ite (fun hunsound => ?_) fun _ => .pure hs₇ fun hinline hclean =>
      hstands (honto.trans honto₇) (hsound (hdeeper hinline) hclean).2
    refine (Advances.types (.update (hs₇.types.close_apply id))).mono fun _ s' honto _ hinline hclean => ?_
    simp [(hsound (hdeeper hinline) (honto.clean hclean)).1] at hunsound

end Steps

/-- A type that was followed without an error, and that no indirection came before, has a finite
layout. -/
theorem advances_kindcheckWithin (n : Nat) : LayoutsWithin n := by
  induction n with
  | zero =>
    intro s scope path t hs hscope ht
    exact .throw
  | succ n ih =>
    intro s scope path t hs hscope ht
    have hdrop {u t : Ty} (hu : Ranged s.types u) (ht : ∀ s', Finite s' t) :
        Advances s (fun s' _ => path.Inline → s'.Clean → Finite s' t)
          (kindcheckWithin n scope path.pointer u) :=
      (ih path.pointer hs hscope hu).mono fun _ s' _ _ _ _ => ht s'
    cases ht with
    | name hid => exact advances_kindcheckName ih hs hscope path hid _ _
    | apply hid hhead has => exact advances_kindcheckApply ih hs hscope path hid hhead has _ _
    | builtin => exact .pure hs fun _ _ => .builtin
    | pointer h => exact hdrop h fun _ => .pointer
    | slice h => exact hdrop h fun _ => .slice
    | @array e k l h =>
      refine .ite (fun hk => ?_) fun hk => .ite (fun _ => ?_) fun _ => ?_
      · exact hdrop h fun _ => .array fun hk' => absurd hk hk'
      · exact (Advances.reportError hs).mono fun _ _ _ hdirty _ hclean => absurd hclean hdirty
      · exact (ih path hs hscope h).mono fun _ _ _ hlayout hinline hclean =>
          .array fun _ => hlayout hinline hclean
    | @struct ms l h =>
      refine (advances_checkMembers (C := path.Inline) hs h (fun m hm s' hs' honto => ?_) []).mono
        fun _ _ _ hlayout hinline hclean => .struct (hlayout hinline hclean)
      exact (ih path.struct hs' hscope ((h m hm).extends honto.types)).mono
        fun _ _ _ hlayout hinline hclean => hlayout hinline.struct hclean
    | @function as r l has hr =>
      refine .bind hs (.forM hs fun a ha s' hs' honto =>
        (ih _ hs' hscope ((has a ha).extends honto.types)).mono fun _ _ _ _ => trivial)
          fun _ s₁ hs₁ honto₁ _ => ?_
      exact (ih _ hs₁ hscope (hr.extends honto₁.types)).mono fun _ _ _ _ _ _ => .function
    | @dot base m l h =>
      refine .bind hs (ih path hs hscope h) fun _ s₁ hs₁ honto₁ hlayout => ?_
      refine (advances_checkDot hs₁ (h.extends honto₁.types) m l).mono
        fun _ s' honto _ hinline hclean => ?_
      exact ((hlayout hinline (honto.clean hclean)).onto honto).memberType m l
    | @var v =>
      refine .get ?_
      rw [hs.types.unbound]
      exact .pure hs fun _ _ => .unbound trivial (hs.types.unbound v)
    | @template id =>
      refine .bind hs (.types (Types.moves_templateEntry hs.types id)) fun e s₁ hs₁ honto₁ he => ?_
      obtain ⟨htypes, he⟩ := he
      refine (ih path hs₁ hscope ((hs.types.body he).1.extends honto₁.types)).mono
        fun _ s' honto _ _ _ => ?_
      exact Finite.onto (hs.types.layout_template trivial he) (honto₁.trans honto)

end Follow

end Qll.Check
