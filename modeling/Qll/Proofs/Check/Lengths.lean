import Qll.Check.Kind
import Qll.Proofs.Check.Watching
import Qll.Proofs.Interchange.Arrays

/-!
# Array lengths that are reported

The check of a type follows it through its definitions. Here it is run once more, in the same steps,
and every type it follows is noted, together with the scope. Reports are never taken back, so each
array type of a negative length that was noted has its report in the end, unless the length is the
one that marks an unsized array.
-/

namespace Qll.Check

open Source (Location)
open Qll.Types (Ty TypeM Scope Path Member)
open Diagnostic (Code)

variable {α β : Type}

/-! ## Reports stay -/

/-- No report is taken back, whether the computation ends well or not. -/
def Adds (x : CheckM α) : Prop := ∀ d s, ∀ r ∈ s.reports, r ∈ (endState (x d s)).reports

namespace Adds

variable {x : CheckM α} {f : α → CheckM β} {scope : Scope}

/-- Giving a value takes no report back. -/
theorem pure (a : α) : Adds (Pure.pure a : CheckM α) := fun _ _ _ hr => hr

/-- A fault takes no report back. -/
theorem throw (e : Fault) : Adds (MonadExcept.throw e : CheckM α) := fun _ _ _ hr => hr

/-- What takes no report back may come behind what does not either. -/
theorem bind (hx : Adds x) (hf : ∀ a, Adds (f a)) : Adds (x >>= f) := by
  intro d s r hr
  have hfirst := hx d s r hr
  rw [bind_run]
  cases hrun : x d s with
  | ok a s' =>
    rw [hrun] at hfirst
    exact hf a d s' r hfirst
  | error e s' =>
    rw [hrun] at hfirst
    exact hfirst

/-- Reading the state takes no report back. -/
theorem get {f : State → CheckM β} (hf : ∀ s, Adds (f s)) : Adds (MonadState.get >>= f) :=
  fun d s => hf s d s

/-- Reading the directory takes no report back. -/
theorem read {f : Directory → CheckM β} (hf : ∀ d, Adds (f d)) : Adds (MonadReader.read >>= f) :=
  fun d s => hf d d s

/-- Either of two computations that take no report back may be taken. -/
theorem ite {c : Prop} [Decidable c] {y : CheckM α} (hx : Adds x) (hy : Adds y) :
    Adds (if c then x else y) := by
  split
  · exact hx
  · exact hy

/-- What is done to types takes no report back. -/
theorem types (x : TypeM α) : Adds (onTypes x) := by
  intro d s r hr
  unfold onTypes
  cases x s.types <;> exact hr

/-- A reported error takes no report back. -/
theorem reportError {location : Option Location} {code : Code} {message : String} :
    Adds (Check.reportError scope location code message) :=
  fun _ _ _ hr => Array.mem_push_of_mem _ hr

/-- Doing for each element what takes no report back takes no report back. -/
theorem forM {f : α → CheckM PUnit} {l : List α} (hf : ∀ a ∈ l, Adds (f a)) : Adds (l.forM f) := by
  induction l with
  | nil => exact pure _
  | cons a l ih =>
    rw [List.forall_mem_cons] at hf
    exact bind hf.1 fun _ => ih hf.2

/-- Computing for each element what takes no report back takes no report back. -/
theorem mapM {f : α → CheckM β} (hf : ∀ a, Adds (f a)) : ∀ l : List α, Adds (l.mapM f)
  | [] => by
    rw [List.mapM_nil]
    exact pure []
  | a :: l => by
    rw [List.mapM_cons]
    exact bind (hf a) fun _ => bind (mapM hf l) fun _ => pure _

/-- Rendering a type takes no report back. -/
theorem textOf (t : Ty) : Adds (Check.textOf t) := types _

end Adds

variable {scope : Scope}

/-- Looking up a type takes no report back. -/
theorem adds_lookupType (name : String) : Adds (lookupType scope name) := by
  unfold lookupType
  split
  · exact .pure _
  · exact .pure _
  · exact .read fun d => .get fun s => .pure _

/-- Resolving a name takes no report back. -/
theorem adds_resolveName (id : Nat) (text : String) (l : Option Location) :
    Adds (resolveName scope id text l) := by
  refine .get fun s => .ite (.pure _) (.bind (adds_lookupType text) fun r => ?_)
  match r with
  | .error _ => exact .bind (.bind .reportError fun _ => .pure _) fun _ => .types _
  | .ok none => exact .bind (.bind .reportError fun _ => .pure _) fun _ => .types _
  | .ok (some b) => exact .bind (.pure b) fun _ => .types _

/-- Checking the arguments of a template takes no report back. -/
theorem adds_checkApplication (id head : Nat) (text : String) (given : Nat) (l : Option Location) :
    Adds (checkApplication scope id head text given l) := by
  refine .bind (.types _) fun target => .bind (.types _) fun _ => .ite (.types _) ?_
  split
  · exact .bind (.types _) fun _ => .ite (.bind .reportError fun _ => .types _) (.pure _)
  · exact .bind .reportError fun _ => .types _

/-- Binding the names in a type takes no report back, however many steps it has. -/
theorem adds_bindNamesWithin (n : Nat) (t : Ty) : Adds (bindNamesWithin scope n t) := by
  induction n generalizing t with
  | zero => exact .throw _
  | succ n ih =>
    unfold bindNamesWithin
    cases t with
    | builtin => exact .pure _
    | name id text l => exact adds_resolveName id text l
    | pointer e l => exact ih e
    | slice e l => exact ih e
    | array e k l => exact ih e
    | dot b m l => exact ih b
    | struct ms l => exact .forM fun m _ => ih m.type
    | function as r l => exact .bind (.forM fun a _ => ih a) fun _ => ih r
    | apply id head text as l =>
      exact .get fun s => .bind (adds_resolveName head text l) fun _ => .bind (.forM fun a _ => ih a)
        fun _ => .ite (adds_checkApplication id head text as.length l) (.pure _)
    | var v =>
      refine .get fun s => ?_
      split
      · exact ih _
      · exact .pure _
    | template id => exact .bind (.types _) fun e => ih e.body

/-- Binding the names in a type takes no report back. -/
theorem adds_bindNames (t : Ty) : Adds (bindNames scope t) :=
  .bind (.types _) fun n => adds_bindNamesWithin n t

/-- Checking a member type takes no report back. -/
theorem adds_checkDot (base : Ty) (member : String) (l : Option Location) :
    Adds (checkDot scope base member l) := by
  refine .bind (.types _) fun shape => .bind (.types _) fun _ => .ite (.pure _) ?_
  split
  · exact .bind (.types _) fun _ =>
      .ite (.bind (.textOf base) fun _ => .reportError) (.pure _)
  · exact .bind (.textOf base) fun _ => .reportError

/-! ## Types that are followed -/

/-- A type that the check follows, and the scope in which it does. -/
structure Visit where
  scope : Scope
  type : Ty

/-- Checks that note the types they follow. -/
abbrev NotingM := ReaderT Directory (EStateM Fault (State × List Visit))

/-- The result of a check, with what was noted until then. -/
def noted (visits : List Visit) :
    EStateM.Result Fault State α → EStateM.Result Fault (State × List Visit) α
  | .ok a s => .ok a (s, visits)
  | .error e s => .error e (s, visits)

/-- What was noted is known from the result it was noted with. -/
theorem noted_inj {visits visits' : List Visit} {r : EStateM.Result Fault State α}
    (h : noted visits r = noted visits' r) : visits = visits' := by
  cases r <;> cases h <;> rfl

/-- A check that follows no type. -/
def silently (x : CheckM α) : NotingM α := fun d s => noted s.2 (x d s.1)

/-- Notes a type. -/
def note (v : Visit) : NotingM Unit := fun _ s => .ok () (s.1, s.2 ++ [v])

/-- Checks the members of a struct type as `checkMembers` does. -/
def notingMembers (scope : Scope) (whole : Ty) (check : Ty → NotingM Unit) :
    List String → List (Member Ty) → NotingM Unit
  | _, [] => return
  | seen, m :: rest => do
    if seen.contains m.name then
      silently (reportError scope m.location .duplicateMember
        ("duplicate member " ++ m.name ++ " in " ++ (← silently (textOf whole))))
    check m.type
    if ← silently (onTypes (Types.isVoid m.type)) then
      silently (reportError scope m.location .voidValue
        ("member " ++ m.name ++ " cannot have type void"))
    notingMembers scope whole check (m.name :: seen) rest

/-- Follows the use of a name as `followReference` does. -/
def notingReference (scope : Scope) (path : Path) (location : Option Location)
    (name label : String) (check : Path → NotingM Unit) : NotingM Bool := do
  match path.reference name with
  | .accepted => return true
  | .infinite =>
    silently (reportError scope location .recursiveType
      ("recursive type " ++ label ++ " has infinite size"))
    return false
  | .enter next =>
    check next
    return true

/-- Checks a type as `kindcheckWithin` does, and notes each type that is followed. -/
def notingWithin : Nat → Scope → Path → Ty → NotingM Unit
  | 0, _, _, _ => silently (throw .endless)
  | n + 1, scope, path, t => do
    note ⟨scope, t⟩
    match t with
    | .builtin .. => return
    | .name id text location =>
      silently (resolveName scope id text location)
      match (← silently get).types.binding? id with
      | none => return
      | some b =>
        match b.type with
        | .var _ | .builtin .. => return
        | definition =>
          let inner := b.scope.getD scope
          let sound ← notingReference scope path location b.qualified b.qualified fun next =>
            notingWithin n inner next definition
          if !sound then silently (onTypes (Types.setCyclicName id))
    | .pointer e _ | .slice e _ => notingWithin n scope path.pointer e
    | .array e length location =>
      if length = Types.unsized then notingWithin n scope path.pointer e
      else if length < 0 then
        silently (reportError scope location .invalidLength
          ("invalid array length " ++ Text.decimal length))
      else notingWithin n scope path e
    | .struct members _ => notingMembers scope t (notingWithin n scope path.struct) [] members
    | .function arguments result _ =>
      arguments.forM (notingWithin n scope path.function)
      notingWithin n scope path.function result
    | .apply id head text arguments location =>
      silently (bindNames scope t)
      let result ← silently (onTypes (Types.applied id head text arguments))
      if ← silently (onTypes (Types.isError result)) then return
      let inner := (((← silently get).types.binding? head).bind (·.scope)).getD scope
      let name ← silently (onTypes (Types.read (·.mangle t)))
      let head ← silently (onTypes (Types.read (·.mangleName head text)))
      let parts ← silently (arguments.mapM textOf)
      let label := head ++ Types.Store.bracket parts
      match path.expand? with
      | none =>
        silently (reportError scope location .depthExceeded
          ("template expansion depth exceeds " ++ Nat.repr Types.maxExpansion ++ " at " ++ label))
        silently (onTypes (Types.setCyclicApply id))
      | some path =>
        let sound ← notingReference scope path location name label fun next =>
          notingWithin n inner next result
        if !sound then silently (onTypes (Types.setCyclicApply id))
    | .dot base member location =>
      notingWithin n scope path base
      silently (checkDot scope base member location)
    | .var v =>
      match (← silently get).types.bound? v with
      | some u => notingWithin n scope path u
      | none => return
    | .template template =>
      notingWithin n scope path (← silently (onTypes (Types.templateEntry template))).body

/-! ## What was noted was checked -/

/-- The report of a length that no array can have. -/
def lengthError (scope : Scope) (location : Option Location) (length : Int) : Diagnostic :=
  { severity := .error, code := .invalidLength, location
    message := "invalid array length " ++ Text.decimal length, notes := notesOf scope.chain }

/-- An array type of a negative length is reported, unless its length marks it as unsized. -/
def Visit.Told (v : Visit) (s : State) : Prop :=
  ∀ e length location, v.type = .array e length location → length < 0 → length ≠ Types.unsized →
    lengthError v.scope location length ∈ s.reports

/-- What is said of a visit stays said while reports are added. -/
theorem Visit.Told.later {v : Visit} {s s' : State} (h : v.Told s)
    (hreports : ∀ r ∈ s.reports, r ∈ s'.reports) : v.Told s' :=
  fun e length location htype hneg hne => hreports _ (h e length location htype hneg hne)

/-- A check that notes types does the same as one that does not, takes no report back, and tells of
what it noted. -/
def Notes (x : CheckM α) (y : NotingM α) : Prop :=
  ∀ d s seen, ∃ visits, y d (s, seen) = noted (seen ++ visits) (x d s) ∧
    (∀ r ∈ s.reports, r ∈ (endState (x d s)).reports) ∧ ∀ v ∈ visits, v.Told (endState (x d s))

namespace Notes

variable {x : CheckM α} {y : NotingM α} {f : α → CheckM β} {g : α → NotingM β}

/-- What notes nothing is followed as it is. -/
theorem silently (h : Adds x) : Notes x (Check.silently x) :=
  fun d s seen => ⟨[], by rw [List.append_nil]; rfl, h d s, nofun⟩

/-- A value is given in both runs. -/
theorem pure (a : α) : Notes (Pure.pure a) (Pure.pure a) := silently (.pure a)

/-- Both runs take one step behind the other. -/
theorem bind (h : Notes x y) (hf : ∀ a, Notes (f a) (g a)) : Notes (x >>= f) (y >>= g) := by
  intro d s seen
  obtain ⟨visits, hy, hreports, htold⟩ := h d s seen
  have hrun : (y >>= g) d (s, seen) = match y d (s, seen) with
      | .ok a s₁ => g a d s₁
      | .error e s₁ => .error e s₁ := by
    change EStateM.bind (y d) (fun a => g a d) (s, seen) = _
    rw [EStateM.bind]
    cases y d (s, seen) <;> rfl
  rw [hrun, hy, bind_run]
  cases hx : x d s with
  | error e s₁ =>
    rw [hx] at hreports htold
    exact ⟨visits, rfl, hreports, htold⟩
  | ok a s₁ =>
    rw [hx] at hreports htold
    obtain ⟨more, hg, hreports', htold'⟩ := hf a d s₁ (seen ++ visits)
    refine ⟨visits ++ more, by rw [← List.append_assoc]; exact hg, fun r hr => hreports' r (hreports r hr), ?_⟩
    intro v hv
    obtain hv | hv := List.mem_append.1 hv
    · exact (htold v hv).later hreports'
    · exact htold' v hv

/-- Both runs read the state. -/
theorem get {f : State → CheckM β} {g : State → NotingM β} (hf : ∀ s, Notes (f s) (g s)) :
    Notes (MonadState.get >>= f) (Check.silently MonadState.get >>= g) :=
  bind (silently (.get fun s => .pure s)) hf

/-- Both runs take the same branch. -/
theorem ite {c : Prop} [Decidable c] {x' : CheckM α} {y' : NotingM α} (h : Notes x y) (h' : Notes x' y') :
    Notes (if c then x else x') (if c then y else y') := by
  split
  · exact h
  · exact h'

/-- Both runs go through a list. -/
theorem forM {f : α → CheckM PUnit} {g : α → NotingM PUnit} {l : List α}
    (h : ∀ a ∈ l, Notes (f a) (g a)) : Notes (l.forM f) (l.forM g) := by
  induction l with
  | nil => exact pure _
  | cons a l ih =>
    rw [List.forall_mem_cons] at h
    exact bind h.1 fun _ => ih h.2

/-- A type is noted that is told of by what follows. -/
theorem noting {x : CheckM Unit} {y : NotingM Unit} {v : Visit} (h : Notes x y)
    (hv : ∀ d s, v.Told (endState (x d s))) : Notes x (note v >>= fun _ => y) := by
  intro d s seen
  obtain ⟨visits, hy, hreports, htold⟩ := h d s (seen ++ [v])
  refine ⟨v :: visits, ?_, hreports, List.forall_mem_cons.2 ⟨hv d s, htold⟩⟩
  rw [List.append_cons]
  exact hy

end Notes

/-- Members are checked alike in both runs. -/
theorem notes_members {whole : Ty} {check : Ty → CheckM Unit} {check' : Ty → NotingM Unit}
    {members : List (Member Ty)} (h : ∀ m ∈ members, Notes (check m.type) (check' m.type))
    (seen : List String) : Notes (checkMembers scope whole check seen members)
      (notingMembers scope whole check' seen members) := by
  induction members generalizing seen with
  | nil => exact .pure _
  | cons m rest ih =>
    rw [List.forall_mem_cons] at h
    have hrest := ih h.2 (m.name :: seen)
    refine (fun hmember => .ite (.bind (.silently (.textOf whole)) fun _ =>
      .bind (.silently .reportError) fun _ => hmember) hmember : Notes _ _ → _) ?_
    exact .bind h.1 fun _ => .bind (.silently (.types _)) fun _ =>
      .ite (.bind (.silently .reportError) fun _ => hrest) hrest

/-- A reference is followed alike in both runs. -/
theorem notes_reference {path : Path} {l : Option Location} {name label : String}
    {check : Path → CheckM Unit} {check' : Path → NotingM Unit} (h : ∀ next, Notes (check next) (check' next)) :
    Notes (followReference scope path l name label check)
      (notingReference scope path l name label check') := by
  unfold followReference notingReference
  cases path.reference name with
  | accepted => exact .pure _
  | infinite => exact .bind (.silently .reportError) fun _ => .pure _
  | enter next => exact .bind (h next) fun _ => .pure _

/-- A type that is not an array is told of, and so is an array of a length that it can have. -/
theorem told_kindcheckWithin (n : Nat) (path : Path) (t : Ty) (d : Directory) (s : State) :
    (Visit.mk scope t).Told (endState (kindcheckWithin (n + 1) scope path t d s)) := by
  rintro e length l rfl hneg hne
  rw [kindcheckWithin, if_neg hne, if_pos hneg]
  exact Array.mem_push_self

/-- A type is followed alike in both runs. -/
theorem notes_kindcheckWithin (n : Nat) (path : Path) (t : Ty) :
    Notes (kindcheckWithin n scope path t) (notingWithin n scope path t) := by
  induction n generalizing scope path t with
  | zero => exact .silently (.throw _)
  | succ n ih =>
    refine .noting ?_ (told_kindcheckWithin n path t)
    unfold kindcheckWithin
    cases t with
    | builtin => exact .pure _
    | name id text l =>
      refine .bind (.silently (adds_resolveName id text l)) fun _ => .get fun s => ?_
      cases s.types.binding? id with
      | none => exact .pure _
      | some b =>
        have hfollow (u : Ty) : Notes
            (do
              let sound ← followReference scope path l b.qualified b.qualified fun next =>
                kindcheckWithin n (b.scope.getD scope) next u
              if !sound then onTypes (Types.setCyclicName id))
            (do
              let sound ← notingReference scope path l b.qualified b.qualified fun next =>
                notingWithin n (b.scope.getD scope) next u
              if !sound then Check.silently (onTypes (Types.setCyclicName id))) :=
          .bind (notes_reference fun next => ih next u) fun _ => .ite (.silently (.types _)) (.pure _)
        dsimp only
        cases b.type with
        | var => exact .pure _
        | builtin => exact .pure _
        | _ => exact hfollow _
    | pointer e l => exact ih _ e
    | slice e l => exact ih _ e
    | array e k l => exact .ite (ih _ e) (.ite (.silently .reportError) (ih _ e))
    | struct ms l => exact notes_members (fun m _ => ih _ m.type) []
    | function as r l => exact .bind (.forM fun a _ => ih _ a) fun _ => ih _ r
    | apply id head text as l =>
      refine .bind (.silently (adds_bindNames _)) fun _ => .bind (.silently (.types _)) fun result => ?_
      refine .bind (.silently (.types _)) fun _ => .ite (.pure _) (.get fun s => ?_)
      refine .bind (.silently (.types _)) fun name => .bind (.silently (.types _)) fun headText => ?_
      refine .bind (.silently (.mapM .textOf as)) fun parts => ?_
      cases path.expand? with
      | none => exact .bind (.silently .reportError) fun _ => .silently (.types _)
      | some next =>
        exact .bind (notes_reference fun next => ih next result) fun _ =>
          .ite (.silently (.types _)) (.pure _)
    | dot b m l => exact .bind (ih _ b) fun _ => .silently (adds_checkDot b m l)
    | var v =>
      refine .get fun s => ?_
      cases s.types.bound? v with
      | some u => exact ih _ u
      | none => exact .pure _
    | template id => exact .bind (.silently (.types _)) fun e => ih _ e.body

/-! ## Where unsized arrays come from -/

section Unsized

open Interchange (Node build unitVisits arrayNodes ArrayOf At)

/-- What an array node means: where it stands, and when its type has no length. -/
theorem length_of_arrayOf {n : Node} {a : Int × Location} (h : ArrayOf n a) : At n a.2 ∧
    (a.1 = Types.unsized ↔ n.has "unsized" = true ∨ n.length = Types.unsized) ∧
    (n.has "unsized" = false → a.1 = n.length) := by
  obtain ⟨length, l⟩ := a
  obtain ⟨rfl : length = _, hl⟩ := h
  refine ⟨hl, ?_, fun hmark => by simp [hmark]⟩
  cases n.has "unsized" <;> simp

/-- Each node of an array type makes one array type in its place, and that is unsized exactly if the
node is marked as unsized or has the length that marks it; otherwise it has the length of the node.
Types keep their arrays when they get entries of their own. Whatever array type of a negative length
the check of a type follows is reported where it stands, unless its length marks it as unsized. -/
theorem unsized_by_mark_or_length (nodes : List (Option Node)) (written : Source.TypeExpr)
    (n : Nat) (scope : Scope) (path : Path) (t : Ty) (d : Directory) (s : State) :
    (∀ decls, build nodes = .ok decls →
      List.Forall₂ (fun n a => At n a.2 ∧
          (a.1 = Types.unsized ↔ n.has "unsized" = true ∨ n.length = Types.unsized) ∧
          (n.has "unsized" = false → a.1 = n.length))
        (arrayNodes (unitVisits nodes)) (Source.declsArrays decls)) ∧
    (∀ T u T', internType written T = .ok u T' → u.arrays = written.arrays.map placed) ∧
    ∃ visits,
      notingWithin n scope path t d (s, []) = noted visits (kindcheckWithin n scope path t d s) ∧
      ∀ v ∈ visits, v.Told (endState (kindcheckWithin n scope path t d s)) := by
  refine ⟨fun decls h => ?_, fun T u T' h => arrays_internType written h, ?_⟩
  · exact (Interchange.arrays_of_build h).imp fun _ _ => length_of_arrayOf
  · obtain ⟨visits, hrun, -, htold⟩ := notes_kindcheckWithin n path t d s []
    exact ⟨visits, hrun, htold⟩

/-- An unsized array of rows, which have a length that no array can have. -/
def rowsNode : Node :=
  { kind := "type", name := "Rows"
    type := some
      { kind := "array", flags := ["unsized"]
        type := some { kind := "array", length := -2, type := some { kind := "name", name := "byte" } } } }

/-- The type of the rows as it is written. -/
def rowsWritten : Source.TypeExpr :=
  .array (.array (.name "byte" ⟨"", 0, 0⟩) (-2) ⟨"", 0, 0⟩) Types.unsized ⟨"", 0, 0⟩

/-- No names at all. -/
def noNames : Directory := ⟨fun _ _ _ => .ok none, fun _ _ _ => .ok none⟩

/-- The type of the rows, without places. -/
def rowsType : Ty := .array (.array .byte (-2) none) Types.unsized none

/-- Of an array without a length whose elements have the length minus two, only the latter is reported. -/
theorem unsized_by_mark_or_length_rows :
    (build [some rowsNode] = .ok [.type "Rows" [] rowsWritten ⟨"", 0, 0⟩] ∧
      List.Forall₂ (fun n a => At n a.2 ∧
          (a.1 = Types.unsized ↔ n.has "unsized" = true ∨ n.length = Types.unsized) ∧
          (n.has "unsized" = false → a.1 = n.length))
        (arrayNodes (unitVisits [some rowsNode]))
        [(Types.unsized, ⟨"", 0, 0⟩), (-2, ⟨"", 0, 0⟩)]) ∧
    (∃ u T', internType rowsWritten {} = .ok u T' ∧
      u.arrays = [(Types.unsized, some ⟨"", 0, 0⟩), (-2, some ⟨"", 0, 0⟩)]) ∧
    lengthError {} none (-2) ∈ (endState (kindcheckWithin 2 {} {} rowsType noNames {})).reports := by
  have hbuild : build [some rowsNode] = .ok [.type "Rows" [] rowsWritten ⟨"", 0, 0⟩] := rfl
  obtain ⟨hbuilt, hinterned, visits, hrun, htold⟩ :=
    unsized_by_mark_or_length [some rowsNode] rowsWritten 2 {} {} rowsType noNames {}
  refine ⟨⟨hbuild, hbuilt _ hbuild⟩, ⟨_, _, rfl, hinterned {} _ _ rfl⟩, ?_⟩
  have hvisits : visits = [⟨{}, rowsType⟩, ⟨{}, .array .byte (-2) none⟩] := noted_inj (hrun.symm.trans rfl)
  exact htold ⟨{}, .array .byte (-2) none⟩ (by simp [hvisits]) .byte (-2) none rfl (by decide) (by decide)

/-- An array type with the length that marks unsized arrays, and no mark. -/
def unmarkedNode : Node :=
  { kind := "type", name := "Cells"
    type := some { kind := "array", length := -1, type := some { kind := "name", name := "byte" } } }

/-- Without a mark the length minus one makes an unsized array, and nothing is reported. -/
theorem unmarked_array_unsized :
    unmarkedNode.type.map (·.has "unsized") = some false ∧
    (build [some unmarkedNode]).toOption.map Source.declsArrays = some [(Types.unsized, ⟨"", 0, 0⟩)] ∧
    (endState ((do
      let t ← onTypes (internType (.array (.name "byte" ⟨"", 0, 0⟩) (-1) ⟨"", 0, 0⟩))
      checkType {} t : CheckM Unit) noNames {})).reports = #[] := by
  refine ⟨rfl, rfl, rfl⟩

end Unsized

end Qll.Check
