import Mathlib.Data.List.Forall2
import Mathlib.Tactic.Common
import Qll.Proofs.Computation
import Qll.Proofs.Interchange.Grammar

/-!
# Building what the grammar accepts

Building visits the nodes of a unit in the order of the grammar and ends at the first malformed one,
at the location that was reached by then. So it succeeds for a unit without malformed nodes, it then
has one tree for each node, and whatever stands behind a malformed node does not matter. Each kind
is built in the same way: its place is noted, its required children are looked for, and the fields
that it uses are built one after another.
-/

namespace Qll.Interchange

open Source (Location TypeExpr Expr Stmt Decl Parameter BinaryOp UnaryOp)

variable {α β : Type}

/-! ## Visits and their outcome -/

/-- What is said of a malformed node, when `file` was named last before it. -/
def errorAt (file : String) (n : Node) (cause : Malformed) : BuildError :=
  { location := Location.make (fileAfter file n) n.line n.column, cause }

/-- What some visits end in, when `file` was named last before them: the file that is named last,
or the first error. -/
def outcome (file : String) : List Visit → Except BuildError String
  | [] => .ok file
  | ⟨n, none⟩ :: rest => outcome (fileAfter file n) rest
  | ⟨n, some cause⟩ :: _ => .error (errorAt file n cause)

/-- What visits end in is what the later ones end in, from the file that the earlier ones name last. -/
theorem outcome_append (file : String) (walk more : List Visit) :
    outcome file (walk ++ more) = outcome file walk >>= fun file => outcome file more := by
  induction walk generalizing file with
  | nil => rfl
  | cons v walk ih =>
    obtain ⟨n, cause⟩ := v
    cases cause with
    | none => exact ih _
    | some cause => rfl

/-- Building makes some visits: it ends with the first error among them, or else with a value that
has a property. -/
structure Follows (x : BuildM α) (walk : List Visit) (P : α → Prop) : Prop where
  error : ∀ file e, outcome file walk = .error e → x.run file = .error e
  ok : ∀ file last, outcome file walk = .ok last → ∃ a, x.run file = .ok (a, last) ∧ P a

namespace Follows

variable {x : BuildM α} {f : α → BuildM β} {walk more : List Visit} {P : α → Prop} {Q : β → Prop}
  {n : Node}

/-- A value that is there makes no visits. -/
theorem pure {a : α} (h : P a) : Follows (Pure.pure a) [] P where
  error _ _ := nofun
  ok file last hlast := by
    cases hlast
    exact ⟨a, rfl, h⟩

/-- Building one thing behind another makes the visits of both. -/
theorem bind (hx : Follows x walk P) (hf : ∀ a, P a → Follows (f a) more Q) :
    Follows (x >>= f) (walk ++ more) Q where
  error file e h := by
    rw [outcome_append] at h
    rw [StateT.run_bind]
    obtain h | ⟨last, hlast, h⟩ := Computation.except_bind_error.1 h
    · rw [hx.error file e h]
      rfl
    · obtain ⟨a, hrun, ha⟩ := hx.ok file last hlast
      rw [hrun]
      exact (hf a ha).error last e h
  ok file last h := by
    rw [outcome_append] at h
    rw [StateT.run_bind]
    obtain ⟨middle, hmiddle, h⟩ := Computation.except_bind_ok.1 h
    obtain ⟨a, hrun, ha⟩ := hx.ok file middle hmiddle
    rw [hrun]
    exact (hf a ha).ok middle last h

/-- What is known of the value may be weakened. -/
theorem mono {R : α → Prop} (hx : Follows x walk P) (h : ∀ a, P a → R a) : Follows x walk R where
  error := hx.error
  ok file last hlast := (hx.ok file last hlast).imp fun a ha => ⟨ha.1, h a ha.2⟩

/-- A value is made of what was built. -/
theorem map (hx : Follows x walk P) {g : α → β} (hg : ∀ a, P a → Q (g a)) :
    Follows (x >>= fun a => Pure.pure (g a)) walk Q := by
  have hmap := hx.bind fun a ha => pure (hg a ha)
  rwa [List.append_nil] at hmap

end Follows

/-- The place of a node is taken from the node, and from the file that was named last. -/
theorem run_locate (n : Node) (file : String) : (locate n).run file =
    .ok (Location.make (fileAfter file n) n.line n.column, fileAfter file n) := by
  unfold locate fileAfter
  split <;> rfl

/-- An error is reported at the place of the node. -/
theorem run_fail (n : Node) (cause : Malformed) (file : String) :
    (fail n cause : BuildM α).run file = .error (errorAt file n cause) := by
  rw [fail, StateT.run_bind, run_locate]
  rfl

/-- The file of a node stays named last when the node is seen again. -/
theorem fileAfter_again (file : String) (n : Node) :
    fileAfter (fileAfter file n) n = fileAfter file n := by
  unfold fileAfter
  split <;> rfl

/-- Nothing follows an error. -/
theorem fail_bind (n : Node) (cause : Malformed) (f : α → BuildM β) :
    fail n cause >>= f = fail n cause := by
  funext file
  have hrun := run_fail (α := α) n cause file
  change (fail n cause >>= f).run file = (fail n cause).run file
  rw [StateT.run_bind, hrun, run_fail]
  rfl

/-- Taking the place of a node is a visit to it. -/
theorem follows_locate (n : Node) : Follows (locate n) [⟨n, none⟩] (At n) where
  error _ _ := nofun
  ok file last hlast := by
    cases hlast
    exact ⟨_, run_locate n file, rfl, rfl⟩

/-- An error is a visit to a malformed node. -/
theorem follows_fail (n : Node) (cause : Malformed) {P : α → Prop} :
    Follows (fail n cause) [⟨n, some cause⟩] P where
  error file e h := by
    cases h
    exact run_fail n cause file
  ok _ _ := nofun

/-! ## Nodes -/

/-- A node's required children are looked for first; then the nodes below it are visited. -/
structure Meets (n : Node) (checks : List (Option Node × String)) (x : BuildM α)
    (walk : List Visit) (P : α → Prop) : Prop where
  missing : ∀ part, firstMissing checks = some part → x = fail n (.lacks n.kind part)
  follows : firstMissing checks = none → Follows x walk P

namespace Meets

variable {n : Node} {x : BuildM α} {walk : List Visit} {P : α → Prop}

/-- Where nothing is required, the nodes below are visited. -/
theorem nil (h : Follows x walk P) : Meets n [] x walk P where
  missing _ := nofun
  follows _ := h

/-- Requiring a child goes on with it, or says which one is missing. -/
theorem cons {child : Option Node} {part : String} {checks : List (Option Node × String)}
    {f : Node → BuildM α} (h : ∀ m, child = some m → Meets n checks (f m) walk P) :
    Meets n ((child, part) :: checks) (require n child part >>= f) walk P := by
  cases child with
  | none => exact ⟨fun _ hpart => by cases hpart; exact fail_bind .., nofun⟩
  | some m => exact ⟨(h m rfl).missing, (h m rfl).follows⟩

end Meets

/-- What is built of a node behind its place: an error if the node is malformed, and else what is
below it. -/
structure Body (p : Position) (n : Node) (x : BuildM α) (P : α → Prop) : Prop where
  malformed : ∀ cause, p.defect (some n) = some cause → x = fail n cause
  wellFormed : p.defect (some n) = none →
    Follows x ((p.uses n.kind).flatMap (Use.visits n)) P

/-- A place that is noted before its parts says which part is missing. -/
theorem lacking_of_noted {p : Position} (h : p.noted = true) (kind part : String) :
    p.lacking kind part = .lacks kind part := by
  cases p with
  | param | member | field => cases h
  | _ => rfl

namespace Body

variable {p : Position} {n : Node} {x : BuildM α} {P : α → Prop} {uses : List Use}

/-- A node of a known kind. -/
theorem known {kind : String} (hkind : n.kind = kind) (huses : p.uses? kind = some uses)
    (hnoted : p.noted = true) (hoperator : ∀ operator ∈ n.operator? p, operator.2 = true)
    (h : Meets n (n.required uses) x (uses.flatMap (Use.visits n)) P) : Body p n x P := by
  subst hkind
  have hdefect : p.defect (some n) =
      (firstMissing (n.required uses)).map (p.lacking n.kind) := by
    rw [Position.defect, huses]
    cases hop : n.operator? p with
    | none => rfl
    | some operator =>
      obtain ⟨arity, known⟩ := operator
      obtain rfl : known = true := hoperator _ hop
      rfl
  have hknown := Position.uses_eq huses
  rw [← hknown] at h
  constructor
  · intro cause hcause
    rw [hdefect] at hcause
    obtain ⟨part, hpart, rfl⟩ := Option.map_eq_some_iff.1 hcause
    rw [lacking_of_noted hnoted]
    exact h.missing part (hknown ▸ hpart)
  · intro hnone
    rw [hdefect] at hnone
    exact h.follows (hknown ▸ Option.map_eq_none_iff.1 hnone)

/-- A node of a kind that has no operator. -/
theorem plain {kind : String} (hkind : n.kind = kind) (huses : p.uses? kind = some uses)
    (hnoted : p.noted = true) (hplain : kind ≠ "binary" ∧ kind ≠ "unary")
    (h : Meets n (n.required uses) x (uses.flatMap (Use.visits n)) P) : Body p n x P := by
  refine known hkind huses hnoted ?_ h
  unfold Node.operator?
  split
  · simp [hkind, hplain.1, hplain.2]
  · simp

/-- A node of an unknown kind is an error. -/
theorem unknown (huses : p.uses? n.kind = none) : Body p n (fail n (p.unknown n.kind)) P := by
  have hdefect : p.defect (some n) = some (p.unknown n.kind) := by
    rw [Position.defect, huses]
  exact ⟨fun cause h => by rw [Option.some.inj (hdefect.symm.trans h)],
    fun h => by rw [hdefect] at h; cases h⟩

/-- A node with an operator that its kind does not have is an error. -/
theorem operator {kind arity : String} (hkind : n.kind = kind) (huses : p.uses? kind = some uses)
    (hoperator : n.operator? p = some (arity, false)) :
    Body p n (fail n (.unknownOperator arity n.op)) P := by
  subst hkind
  have hdefect : p.defect (some n) = some (.unknownOperator arity n.op) := by
    rw [Position.defect, huses, hoperator]
  exact ⟨fun cause h => by rw [Option.some.inj (hdefect.symm.trans h)],
    fun h => by rw [hdefect] at h; cases h⟩

end Body

namespace Follows

variable {p q : Position} {n m : Node} {P : α → Prop} {Q : β → Prop} {R : Node → α → Prop}

/-- A node whose place is noted first. -/
theorem located {x : Location → BuildM α} (hnoted : p.noted = true)
    (h : ∀ l, At n l → Body p n (x l) P) : Follows (locate n >>= x) (visits p (some n)) P := by
  cases hdefect : p.defect (some n) with
  | none =>
    rw [visits_wellFormed hdefect, if_pos hnoted]
    exact (follows_locate n).bind fun l hl => (h l hl).wellFormed hdefect
  | some cause =>
    have hfail : locate n >>= x = fail n cause := by
      funext file
      change (locate n >>= x).run file = (fail n cause).run file
      rw [StateT.run_bind, run_locate, run_fail]
      change (x _).run _ = _
      rw [(h _ ⟨rfl, rfl⟩).malformed cause hdefect, run_fail, errorAt, fileAfter_again]
      rfl
    rw [visits_malformed hdefect, hfail]
    exact follows_fail n cause

/-! ### Fields -/

/-- Nothing more is visited. -/
theorem done {a : α} (h : P a) :
    Follows (Pure.pure a) (([] : List Use).flatMap (Use.visits n)) P := pure h

/-- The next field is built. -/
theorem use {x : BuildM α} {f : α → BuildM β} {use : Use} {uses : List Use}
    (hx : Follows x (use.visits n) P)
    (hf : ∀ a, P a → Follows (f a) (uses.flatMap (Use.visits n)) Q) :
    Follows (x >>= f) ((use :: uses).flatMap (Use.visits n)) Q := by
  rw [List.flatMap_cons]
  exact hx.bind hf

end Follows

/-- Building what a node means, for nodes of some height. -/
def Builds (depth : Nat) (build : Node → BuildM α) (p : Position) (R : Node → α → Prop) : Prop :=
  ∀ n : Node, n.height ≤ depth → Follows (build n) (visits p (some n)) (R n)

namespace Builds

variable {depth : Nat} {build : Node → BuildM α} {p : Position} {R : Node → α → Prop} {n : Node}

/-- In no steps nothing is built, since every node has a height. -/
theorem zero : Builds 0 build p R := by
  intro n hn
  rw [height_eq] at hn
  omega

/-- A child that is there. -/
theorem child (h : Builds depth build p R) (hn : n.height ≤ depth + 1) {c : Child} {m : Node}
    (hm : n.child c = some m) : Follows (build m) ((Use.one c p).visits n) (R m) := by
  have hparts : (Use.one c p).visits n = visits p (some m) := by
    simp [Use.visits, Use.parts, Use.position, hm]
  have := height_lt (hm ▸ child_mem_parts n c)
  rw [hparts]
  exact h m (by omega)

/-- A child that may be missing. -/
theorem option (h : Builds depth build p R) (hn : n.height ≤ depth + 1) (c : Child) :
    Follows (buildOption build (n.child c)) ((Use.maybe c p).visits n)
      (Option.Rel R (n.child c)) := by
  have hparts : (Use.maybe c p).visits n =
      (n.child c).toList.flatMap fun m => visits p (some m) := by
    simp [Use.visits, Use.parts, Use.position, List.flatMap_map]
  have hmem := child_mem_parts n c
  rw [hparts]
  cases hm : n.child c with
  | none => exact Follows.pure .none
  | some m =>
    have := height_lt (hm ▸ hmem)
    rw [Option.toList_some, List.flatMap_singleton]
    exact (h m (by omega)).map fun a ha => .some ha

end Builds

/-- Building the nodes of a list makes their visits one after the other. -/
theorem follows_mapM {nodes : List (Option Node)} {f : Option Node → BuildM α}
    {walk : Option Node → List Visit} {R : Option Node → α → Prop}
    (h : ∀ part ∈ nodes, Follows (f part) (walk part) (R part)) :
    Follows (nodes.mapM f) (nodes.flatMap walk) (List.Forall₂ R nodes) := by
  induction nodes with
  | nil =>
    rw [List.mapM_nil]
    exact .pure .nil
  | cons part nodes ih =>
    rw [List.forall_mem_cons] at h
    rw [List.mapM_cons, List.flatMap_cons]
    exact h.1.bind fun a ha => (ih h.2).map fun as has => .cons ha has

/-- The nodes of a field, each of them lower than the node it is a field of. -/
theorem follows_row {depth : Nat} {n : Node} {f : Option Node → BuildM α} {p : Position}
    {R : Option Node → α → Prop} (hn : n.height ≤ depth + 1) (r : Row)
    (h : ∀ part, optionHeight part ≤ depth → Follows (f part) (visits p part) (R part)) :
    Follows ((n.row r).mapM f) ((Use.each r p).visits n) (List.Forall₂ R (n.row r)) :=
  follows_mapM fun part hpart => h part (by
    have := optionHeight_lt (mem_parts (row_mem_partLists n r) hpart)
    omega)

namespace Builds

variable {depth : Nat} {build : Node → BuildM α} {p : Position} {R : Node → α → Prop} {n : Node}

/-- A node that has to be there. -/
theorem present (h : Builds depth build p R) {what : String} (hwhat : p.missing = .nothing what)
    {part : Option Node} (hpart : optionHeight part ≤ depth) :
    Follows (do build (← present what part)) (visits p part) (Present R part) := by
  cases part with
  | none =>
    rw [visits_none, hwhat]
    change Follows (fail {} (.nothing what) >>= build) _ _
    rw [fail_bind]
    exact follows_fail {} _
  | some m => exact (h m hpart).mono fun a ha => .mk ha

/-- All nodes of a list. -/
theorem each (h : Builds depth build p R) (hn : n.height ≤ depth + 1) {what : String}
    (hwhat : p.missing = .nothing what) (r : Row) :
    Follows ((n.row r).mapM fun part => do build (← Interchange.present what part))
      ((Use.each r p).visits n) (List.Forall₂ (Present R) (n.row r)) :=
  follows_row hn r fun _ => h.present hwhat

end Builds

/-! ## Members, fields and parameters -/

/-- Builds a node of some kind: its name and its place around what its child means. -/
def buildNamed (kind : String) (c : Child) (cause : Malformed) (build : Node → BuildM α) :
    Option Node → BuildM (String × α × Location)
  | none => fail {} cause
  | some n =>
    match n.child c with
    | none => fail n cause
    | some m =>
      if n.kind = kind then do
        let a ← build m
        let l ← locate n
        return (n.name, a, l)
      else fail n cause

/-- A named part with its child is built from the child, then placed. -/
theorem buildNamed_eq {kind : String} {c : Child} {cause : Malformed} {build : Node → BuildM α}
    {n m : Node} (hkind : n.kind = kind) (hchild : n.child c = some m) :
    buildNamed kind c cause build (some n) = do
      let a ← build m
      let l ← locate n
      return (n.name, a, l) := by
  unfold buildNamed
  simp only [hchild, if_pos hkind]

/-- A named part of another kind or without its child is an error. -/
theorem buildNamed_eq_fail {kind : String} {c : Child} {cause : Malformed}
    {build : Node → BuildM α} {part : Option Node}
    (h : ∀ n m, part = some n → n.kind = kind → n.child c = some m → False) :
    buildNamed kind c cause build part = fail (part.getD {}) cause := by
  unfold buildNamed
  split
  · rfl
  next n =>
    split
    · rfl
    next m hm =>
      split
      next hkind => exact (h n m rfl hkind hm).elim
      · rfl

/-- The members of a struct are built one after the other. -/
theorem buildMembers_eq (build : Node → BuildM TypeExpr) (nodes : List (Option Node)) :
    buildMembers build nodes = nodes.mapM (buildNamed "member" .type .member build) := by
  induction nodes with
  | nil => rfl
  | cons part nodes ih =>
    rw [List.mapM_cons]
    unfold buildMembers
    split
    · simp [buildNamed, Node.child, ih]
    next hpart =>
      rw [buildNamed_eq_fail, fail_bind]
      rintro ⟨⟩ m rfl ⟨⟩ ⟨⟩
      apply hpart
      rfl

/-- The fields of a struct value are built one after the other. -/
theorem buildFields_eq (build : Node → BuildM Expr) (nodes : List (Option Node)) :
    buildFields build nodes = nodes.mapM (buildNamed "field" .expr .field build) := by
  induction nodes with
  | nil => rfl
  | cons part nodes ih =>
    rw [List.mapM_cons]
    unfold buildFields
    split
    · simp [buildNamed, Node.child, ih]
    next hpart =>
      rw [buildNamed_eq_fail, fail_bind]
      rintro ⟨⟩ m rfl ⟨⟩ ⟨⟩
      apply hpart
      rfl

/-- The grammar of a position whose only kind has one child, and whose defects are all the same. -/
structure Position.IsNamed (p : Position) (kind : String) (c : Child) (q : Position)
    (cause : Malformed) : Prop where
  rules : p.rules = [(kind, [.one c q])]
  missing : p.missing = cause
  unknown : ∀ kind, p.unknown kind = cause
  lacking : ∀ kind part, p.lacking kind part = cause
  operator : ∀ n : Node, n.operator? p = none
  noted : p.noted = false

/-- The position of a member is one of named parts. -/
theorem isNamed_member : Position.IsNamed .member "member" .type .type .member :=
  ⟨rfl, rfl, fun _ => rfl, fun _ _ => rfl, fun _ => rfl, rfl⟩

/-- The position of a field is one of named parts. -/
theorem isNamed_field : Position.IsNamed .field "field" .expr .expression .field :=
  ⟨rfl, rfl, fun _ => rfl, fun _ _ => rfl, fun _ => rfl, rfl⟩

namespace Position.IsNamed

variable {p q : Position} {kind : String} {c : Child} {cause : Malformed} {n : Node}

/-- A named part has its one child. -/
theorem uses? (hp : p.IsNamed kind c q cause) (hkind : n.kind = kind) :
    p.uses? n.kind = some [.one c q] := by
  rw [Position.uses?, hp.rules, hkind, List.lookup_cons_self]

/-- A named part with its child is well formed. -/
theorem defect_eq_none (hp : p.IsNamed kind c q cause) {m : Node} (hkind : n.kind = kind)
    (hchild : n.child c = some m) : p.defect (some n) = none := by
  rw [Position.defect, hp.uses? hkind, hp.operator]
  simp [Node.required, firstMissing, hchild]

/-- A named part of another kind or without its child is malformed. -/
theorem defect_eq_some (hp : p.IsNamed kind c q cause)
    (h : ∀ m, n.kind = kind → n.child c = some m → False) : p.defect (some n) = some cause := by
  by_cases hkind : n.kind = kind
  · have hchild : n.child c = none := Option.eq_none_iff_forall_not_mem.2 fun m => h m hkind
    rw [Position.defect, hp.uses? hkind, hp.operator]
    simp [Node.required, firstMissing, hchild, hp.lacking]
  · rw [Position.defect, Position.uses?, hp.rules, List.lookup_cons, beq_false_of_ne hkind]
    simp [hp.unknown]

end Position.IsNamed

/-- A member or a field. -/
theorem Builds.named {depth : Nat} {build : Node → BuildM α} {p q : Position} {kind : String}
    {c : Child} {cause : Malformed} {R : Node → α → Prop} (h : Builds depth build q R)
    (hp : p.IsNamed kind c q cause) {part : Option Node} (hpart : optionHeight part ≤ depth) :
    Follows (buildNamed kind c cause build part) (visits p part) (Named kind c R part) := by
  cases part with
  | none =>
    rw [visits_none, hp.missing]
    exact follows_fail {} cause
  | some n =>
    by_cases hn : ∃ m, n.kind = kind ∧ n.child c = some m
    · obtain ⟨m, hkind, hchild⟩ := hn
      rw [visits_wellFormed (hp.defect_eq_none hkind hchild), hp.noted, if_neg Bool.false_ne_true,
        Position.uses_eq (hp.uses? hkind), List.flatMap_singleton, buildNamed_eq hkind hchild]
      refine (h.child (Nat.le_succ_of_le hpart) hchild).bind fun a ha => ?_
      exact (follows_locate n).map fun l hl => .mk hkind hchild ha hl
    · have hbad (m : Node) (hkind : n.kind = kind) (hchild : n.child c = some m) : False :=
        hn ⟨m, hkind, hchild⟩
      rw [visits_malformed (hp.defect_eq_some hbad), buildNamed_eq_fail]
      · exact follows_fail n cause
      · rintro _ m ⟨⟩
        exact hbad m

/-- Building the named parts in a row of a node makes their visits. -/
theorem Builds.eachNamed {depth : Nat} {build : Node → BuildM α} {p q : Position} {kind : String}
    {c : Child} {cause : Malformed} {R : Node → α → Prop} {n : Node} (h : Builds depth build q R)
    (hp : p.IsNamed kind c q cause) (hn : n.height ≤ depth + 1) (r : Row) :
    Follows ((n.row r).mapM (buildNamed kind c cause build)) ((Use.each r p).visits n)
      (List.Forall₂ (Named kind c R) (n.row r)) :=
  follows_row hn r fun _ => h.named hp

/-! ## Types -/

/-- Building a type makes the visits of its node. -/
theorem builds_type (depth : Nat) : Builds depth (buildType depth) .type TypeOf := by
  induction depth with
  | zero => exact .zero
  | succ depth ih =>
    intro n hn
    unfold buildType
    refine .located rfl fun l hl => ?_
    dsimp only
    split
    next hkind => exact .plain hkind rfl rfl (by decide) (.nil (.done (.name hkind hl)))
    next hkind =>
      rw [bind_assoc]
      exact .plain hkind rfl rfl (by decide) (.cons fun c hc => .nil
        (.use (ih.child hn hc) fun t ht => .done (.pointer hkind hc ht hl)))
    next hkind =>
      rw [bind_assoc]
      exact .plain hkind rfl rfl (by decide) (.cons fun c hc => .nil
        (.use (ih.child hn hc) fun t ht => .done (.array hkind hc ht hl)))
    next hkind =>
      rw [bind_assoc]
      exact .plain hkind rfl rfl (by decide) (.cons fun c hc => .nil
        (.use (ih.child hn hc) fun t ht => .done (.slice hkind hc ht hl)))
    next hkind =>
      rw [buildMembers_eq]
      exact .plain hkind rfl rfl (by decide) (.nil
        (.use (ih.eachNamed isNamed_member hn .members) fun members hmembers =>
          .done (.struct hkind hmembers hl)))
    next hkind =>
      exact .plain hkind rfl rfl (by decide) (.nil
        (.use (ih.option hn .type) fun result hresult =>
          .use (ih.each hn rfl .types) fun arguments harguments =>
            .done (.function hkind harguments hresult hl)))
    next hkind =>
      exact .plain hkind rfl rfl (by decide) (.nil
        (.use (ih.each hn rfl .types) fun arguments harguments =>
          .done (.apply hkind harguments hl)))
    next hkind =>
      rw [bind_assoc]
      exact .plain hkind rfl rfl (by decide) (.cons fun c hc => .nil
        (.use (ih.child hn hc) fun t ht => .done (.dot hkind hc ht hl)))
    next kind _ _ _ _ _ _ _ _ =>
      refine .unknown (List.lookup_eq_none_iff.2 ?_)
      simp_all [Position.rules]

/-! ## Expressions -/

/-- Building an expression makes the visits of its node. -/
theorem builds_expr (depth : Nat) : Builds depth (buildExpr depth) .expression ExprOf := by
  induction depth with
  | zero => exact .zero
  | succ depth ih =>
    intro n hn
    have htype := builds_type depth
    unfold buildExpr
    refine .located rfl fun l hl => ?_
    dsimp only
    split
    next hkind => exact .plain hkind rfl rfl (by decide) (.nil (.done (.integer hkind hl)))
    next hkind => exact .plain hkind rfl rfl (by decide) (.nil (.done (.text hkind hl)))
    next hkind => exact .plain hkind rfl rfl (by decide) (.nil (.done (.null hkind hl)))
    next hkind =>
      exact .plain hkind rfl rfl (by decide)
        (.nil (.use (htype.each hn rfl .types) fun arguments harguments =>
          .done (.name hkind harguments hl)))
    next hkind =>
      cases hop : BinaryOp.parse? n.op with
      | none => exact .operator hkind rfl (by simp [Node.operator?, hkind, hop])
      | some op =>
        simp only [bind_assoc, pure_bind]
        exact .known hkind rfl rfl (by simp [Node.operator?, hkind, hop])
          (.cons fun a ha => .cons fun b hb => .nil
            (.use (ih.child hn ha) fun left hleft => .use (ih.child hn hb) fun right hright =>
              .done (.binary hkind hop ha hleft hb hright hl)))
    next hkind =>
      cases hop : UnaryOp.parse? n.op with
      | none => exact .operator hkind rfl (by simp [Node.operator?, hkind, hop])
      | some op =>
        exact .known hkind rfl rfl (by simp [Node.operator?, hkind, hop])
          (.cons fun c hc => .nil (.use (ih.child hn hc) fun operand h =>
            .done (.unary hkind hop hc h hl)))
    next hkind =>
      exact .plain hkind rfl rfl (by decide)
        (.cons fun c hc => .nil (.use (ih.child hn hc) fun base h =>
          .done (.member hkind hc h hl)))
    next hkind =>
      exact .plain hkind rfl rfl (by decide)
        (.cons fun c hc => .nil (.use (ih.child hn hc) fun base h =>
          .done (.arrow hkind hc h hl)))
    next hkind =>
      simp only [bind_assoc, pure_bind]
      exact .plain hkind rfl rfl (by decide)
        (.cons fun a ha => .cons fun b hb => .nil
          (.use (ih.child hn ha) fun base hbase => .use (ih.child hn hb) fun position hposition =>
            .done (.index hkind ha hbase hb hposition hl)))
    next hkind =>
      exact .plain hkind rfl rfl (by decide)
        (.cons fun c hc => .nil (.use (ih.child hn hc) fun callee h =>
          .use (ih.each hn rfl .args) fun arguments harguments =>
            .done (.call hkind hc h harguments hl)))
    next hkind =>
      exact .plain hkind rfl rfl (by decide)
        (.cons fun a ha => .cons fun b hb => .nil
          (.use (htype.child hn ha) fun target htarget =>
            .use (ih.child hn hb) fun operand hoperand =>
              .done (.cast hkind ha htarget hb hoperand hl)))
    next hkind =>
      exact .plain hkind rfl rfl (by decide)
        (.cons fun c hc => .nil (.use (htype.child hn hc) fun target h =>
          .done (.sizeOf hkind hc h hl)))
    next hkind =>
      exact .plain hkind rfl rfl (by decide)
        (.cons fun c hc => .nil (.use (htype.child hn hc) fun target h =>
          .use (ih.option hn .expr) fun count hcount => .done (.new hkind hc h hcount hl)))
    next hkind =>
      rw [buildFields_eq]
      exact .plain hkind rfl rfl (by decide)
        (.cons fun c hc => .nil (.use (ih.eachNamed isNamed_field hn .members) fun fields hfields =>
          .use (htype.child hn hc) fun target h => .done (.struct hkind hc h hfields hl)))
    next hkind =>
      exact .plain hkind rfl rfl (by decide)
        (.nil (.use (ih.each hn rfl .args) fun elements helements =>
          .done (.array hkind helements hl)))
    next =>
      refine .unknown (List.lookup_eq_none_iff.2 ?_)
      simp_all [Position.rules]

/-! ## Statements -/

/-- Building a statement makes the visits of its node. -/
theorem builds_stmt (depth : Nat) : Builds depth (buildStmt depth) .statement StmtOf := by
  induction depth with
  | zero => exact .zero
  | succ depth ih =>
    intro n hn
    have htype := builds_type depth
    have hexpr := builds_expr depth
    unfold buildStmt
    refine .located rfl fun l hl => ?_
    dsimp only
    split
    next hkind =>
      exact .plain hkind rfl rfl (by decide)
        (.cons fun c hc => .nil (.use (hexpr.child hn hc) fun value h =>
          .done (.expression hkind hc h hl)))
    next hkind =>
      exact .plain hkind rfl rfl (by decide)
        (.nil (.use (htype.option hn .type) fun type htype =>
          .use (hexpr.option hn .expr) fun init hinit => .done (.var hkind htype hinit hl)))
    next hkind =>
      exact .plain hkind rfl rfl (by decide)
        (.cons fun a ha => .cons fun b hb => .nil
          (.use (hexpr.child hn ha) fun target htarget =>
            .use (hexpr.child hn hb) fun value hvalue =>
              .done (.assign hkind ha htarget hb hvalue hl)))
    next hkind =>
      exact .plain hkind rfl rfl (by decide)
        (.cons fun c hc => .nil (.use (hexpr.child hn hc) fun condition h =>
          .use (ih.each hn rfl .body) fun yes hyes => .use (ih.each hn rfl .otherwise) fun no hno =>
            .done (.cond hkind hc h hyes hno hl)))
    next hkind =>
      exact .plain hkind rfl rfl (by decide)
        (.cons fun c hc => .nil (.use (hexpr.child hn hc) fun condition h =>
          .use (ih.each hn rfl .body) fun body hbody => .done (.whileLoop hkind hc h hbody hl)))
    next hkind =>
      exact .plain hkind rfl rfl (by decide)
        (.nil (.use (ih.each hn rfl .body) fun body hbody =>
          .use (ih.option hn .init) fun init hinit =>
            .use (hexpr.option hn .cond) fun condition hcondition =>
              .use (ih.option hn .step) fun step hstep =>
                .done (.forLoop hkind hinit hcondition hstep hbody hl)))
    next hkind => exact .plain hkind rfl rfl (by decide) (.nil (.done (.breakLoop hkind hl)))
    next hkind =>
      exact .plain hkind rfl rfl (by decide)
        (.nil (.use (hexpr.option hn .expr) fun value hvalue => .done (.giveBack hkind hvalue hl)))
    next hkind =>
      exact .plain hkind rfl rfl (by decide)
        (.nil (.use (ih.each hn rfl .body) fun body hbody => .done (.block hkind hbody hl)))
    next hkind =>
      exact .plain hkind rfl rfl (by decide)
        (.cons fun c hc => .nil (.use (hexpr.child hn hc) fun value h =>
          .done (.delete hkind hc h hl)))
    next =>
      refine .unknown (List.lookup_eq_none_iff.2 ?_)
      simp_all [Position.rules]

/-! ## Declarations -/

/-- A parameter is malformed if its node is none of parameters, or has no type. -/
theorem defect_param_eq {n : Node} : Position.defect .param (some n) =
    if n.kind = "param" then (firstMissing [(n.type, "type")]).map (.lacks n.kind)
    else some .param := by
  split
  next hkind =>
    rw [Position.defect, hkind]
    rfl
  next hkind =>
    rw [Position.defect, Position.uses?, Position.rules, List.lookup_cons, beq_false_of_ne hkind]
    rfl

/-- Building a parameter makes the visits of its node. -/
theorem follows_param {depth : Nat} {part : Option Node} (hpart : optionHeight part ≤ depth) :
    Follows (buildParam depth part) (visits .param part) (Present ParamOf part) := by
  cases part with
  | none =>
    rw [visits_none]
    change Follows (fail {} .param >>= _) _ _
    rw [fail_bind]
    exact follows_fail {} .param
  | some n =>
    have hdefect := defect_param_eq (n := n)
    split at hdefect
    next hkind =>
      have hbuild : buildParam depth (some n) = (do
          let t ← buildType depth (← require n n.type "type")
          return { name := n.name, type := t, location := ← locate n }) := by
        simp [buildParam, hkind]
      rw [hbuild]
      cases hchild : n.child .type with
      | none =>
        have hc : n.type = none := hchild
        rw [hc] at hdefect ⊢
        rw [visits_malformed hdefect]
        change Follows (fail n (.lacks n.kind "type") >>= _) _ _
        rw [fail_bind]
        exact follows_fail n _
      | some c =>
        have hc : n.type = some c := hchild
        have huses : Position.uses .param n.kind = [.one .type .type] := by rw [hkind]; rfl
        have hrequire : require n n.type "type" = pure c := by rw [hc]; rfl
        rw [hc] at hdefect
        rw [hrequire, pure_bind, visits_wellFormed hdefect, if_neg (by decide), huses,
          List.flatMap_singleton]
        refine ((builds_type depth).child (Nat.le_succ_of_le hpart) hchild).bind fun t ht => ?_
        exact (follows_locate n).map fun l hl => .mk (.mk hkind hc ht hl)
    next hkind =>
      have hbuild : buildParam depth (some n) = fail n .param := by
        simp [buildParam, hkind, fail_bind]
      rw [hbuild, visits_malformed hdefect]
      exact follows_fail n .param

/-- Building a declaration makes the visits of its node. -/
theorem builds_decl (depth : Nat) : Builds depth (buildDecl depth) .declaration DeclOf := by
  induction depth with
  | zero => exact .zero
  | succ depth ih =>
    intro n hn
    have htype := builds_type depth
    have hexpr := builds_expr depth
    have hstmt := builds_stmt depth
    unfold buildDecl
    refine .located rfl fun l hl => ?_
    split
    next hkind =>
      exact .plain hkind rfl rfl (by decide)
        (.cons fun c hc => .nil (.use (htype.child hn hc) fun definition h =>
          .done (.type hkind hc h hl)))
    next hkind =>
      exact .plain hkind rfl rfl (by decide)
        (.nil (.use (htype.option hn .type) fun type htype =>
          .use (hexpr.option hn .expr) fun init hinit => .done (.global hkind htype hinit hl)))
    next hkind =>
      have hparams : Follows (n.args.mapM (buildParam depth)) ((Use.each .args .param).visits n)
          (List.Forall₂ (Present ParamOf) n.args) := follows_row hn .args fun _ => follows_param
      exact .plain hkind rfl rfl (by decide)
        (.nil (.use hparams fun params hparams =>
          .use (htype.option hn .type) fun result hresult =>
            .use (hstmt.each hn rfl .body) fun body hbody =>
              .done (.function hkind hparams hresult hbody hl)))
    next hkind => exact .plain hkind rfl rfl (by decide) (.nil (.done (.use hkind hl)))
    next hkind =>
      exact .plain hkind rfl rfl (by decide)
        (.nil (.use (ih.each hn rfl .body) fun decls hdecls => .done (.space hkind hdecls hl)))
    next =>
      refine .unknown (List.lookup_eq_none_iff.2 ?_)
      simp_all [Position.rules]

/-! ## Units -/

/-- No node of a list is higher than the list. -/
theorem optionHeight_le_listHeight {nodes : List (Option Node)} {part : Option Node}
    (h : part ∈ nodes) : optionHeight part ≤ listHeight nodes := by
  cases part with
  | none => exact Nat.zero_le _
  | some n => exact height_le_listHeight h

/-- Building a unit makes the visits of its nodes. -/
theorem follows_unit (nodes : List (Option Node)) :
    Follows (nodes.mapM fun n => do buildDecl (listHeight nodes) (← present "declaration" n))
      (unitVisits nodes) (List.Forall₂ (Present DeclOf) nodes) :=
  follows_mapM fun _ hpart => (builds_decl _).present rfl (optionHeight_le_listHeight hpart)

/-- If the visits of a unit end in an error, building it ends in that error. -/
theorem build_of_error {nodes : List (Option Node)} {e : BuildError}
    (h : outcome "" (unitVisits nodes) = .error e) : build nodes = .error e := by
  rw [build, (follows_unit nodes).error "" e h]
  rfl

/-- If the visits of a unit end well, it is built, and what is built of each node means what the node says. -/
theorem build_of_ok {nodes : List (Option Node)} {last : String}
    (h : outcome "" (unitVisits nodes) = .ok last) :
    ∃ decls, build nodes = .ok decls ∧ List.Forall₂ (Present DeclOf) nodes decls := by
  obtain ⟨decls, hrun, hdecls⟩ := (follows_unit nodes).ok "" last h
  refine ⟨decls, ?_, hdecls⟩
  rw [build, hrun]
  rfl

/-! ### What is reached -/

/-- Nothing is missing if all parts are there, and only then. -/
theorem firstMissing_eq_none_iff (checks : List (Option Node × String)) :
    firstMissing checks = none ↔ ∀ check ∈ checks, check.1 ≠ none := by
  induction checks with
  | nil => simp [firstMissing]
  | cons check checks ih =>
    obtain ⟨child, part⟩ := check
    cases child with
    | none => simp [firstMissing]
    | some c => simp [firstMissing, ih]

/-- All required parts are there if every child that must be there is. -/
theorem forall_required_iff (n : Node) (uses : List Use) :
    (∀ check ∈ n.required uses, check.1 ≠ none) ↔
      ∀ c q, .one c q ∈ uses → n.child c ≠ none := by
  constructor
  · intro h c q hc
    exact h (n.child c, c.name) (List.mem_filterMap.2 ⟨.one c q, hc, rfl⟩)
  · intro h check hcheck
    obtain ⟨use, huse, hcheck⟩ := List.mem_filterMap.1 hcheck
    cases use with
    | one c q =>
      cases hcheck
      exact h c q huse
    | maybe c q => cases hcheck
    | each r q => cases hcheck

/-- A kind is unknown in a position if no rule is about it, and only then. -/
theorem uses?_eq_none_iff (p : Position) (kind : String) :
    p.uses? kind = none ↔ kind ∉ p.rules.map Prod.fst := by
  rw [Position.uses?, List.lookup_eq_none_iff]
  simp only [List.mem_map, not_exists, not_and, bne_iff_ne, ne_eq]
  exact ⟨fun h rule hrule hkind => h rule hrule hkind.symm,
    fun h rule hrule hkind => h rule hrule hkind.symm⟩

/-- A node without a defect is what the grammar asks for. -/
theorem defect_eq_none_iff (p : Position) (n : Node) :
    p.defect (some n) = none ↔ n.WellFormed p := by
  have hknown := uses?_eq_none_iff p n.kind
  have hchildren := (firstMissing_eq_none_iff _).trans (forall_required_iff n (p.uses n.kind))
  rw [Position.defect]
  cases huses : p.uses? n.kind with
  | none => exact iff_of_false (Option.some_ne_none _) fun h => hknown.1 huses h.kind
  | some uses =>
    have hkind : n.kind ∈ p.rules.map Prod.fst := by
      by_contra h
      rw [hknown.2 h] at huses
      cases huses
    obtain rfl := Position.uses_eq huses
    cases hoperator : n.operator? p with
    | none =>
      dsimp only
      rw [Option.map_eq_none_iff, hchildren]
      exact ⟨fun h => ⟨hkind, by simp [hoperator], h⟩, fun h => h.children⟩
    | some operator =>
      obtain ⟨arity, known⟩ := operator
      cases known with
      | false =>
        exact iff_of_false (Option.some_ne_none _)
          fun h => Bool.false_ne_true (h.operator _ hoperator)
      | true =>
        dsimp only
        rw [Option.map_eq_none_iff, hchildren]
        exact ⟨fun h => ⟨hkind, by simp [hoperator], h⟩, fun h => h.children⟩

/-- A node and what is visited below it. -/
theorem faultless_iff (p : Position) (n : Node) :
    (∀ v ∈ visits p (some n), v.cause = none) ↔ p.defect (some n) = none ∧
      ∀ use ∈ p.uses n.kind, ∀ part ∈ use.parts n, ∀ v ∈ visits use.position part,
        v.cause = none := by
  have hbelow : (∀ v ∈ (p.uses n.kind).flatMap (Use.visits n), v.cause = none) ↔
      ∀ use ∈ p.uses n.kind, ∀ part ∈ use.parts n, ∀ v ∈ visits use.position part,
        v.cause = none := by
    simp only [List.forall_mem_flatMap, Use.visits]
  cases hdefect : p.defect (some n) with
  | some cause =>
    rw [visits_malformed hdefect]
    simp
  | none =>
    rw [visits_wellFormed hdefect, ← hbelow]
    split
    · rw [List.forall_mem_cons]
    · rw [List.forall_mem_append, List.forall_mem_singleton]
      simp

/-- Where a node is missing, the visit to it finds an error. -/
theorem not_faultless_none (p : Position) : ¬ ∀ v ∈ visits p none, v.cause = none := by
  rw [visits_none]
  simp

/-- Where no visit of a unit finds an error, no visit to a node that is reached in it does. -/
theorem faultless_of_reached {nodes : List (Option Node)}
    (h : ∀ v ∈ unitVisits nodes, v.cause = none) {p : Position} {part : Option Node}
    (hpart : Reached nodes p part) : ∀ v ∈ visits p part, v.cause = none := by
  induction hpart with
  | top hpart => exact fun v hv => h v (List.mem_flatMap.2 ⟨_, hpart, hv⟩)
  | used _ huse hpart ih => exact ((faultless_iff _ _).1 ih).2 _ huse _ hpart

/-- Below what is reached nothing is visited that is not reached. -/
theorem faultless_of_wellFormed {nodes : List (Option Node)}
    (h : ∀ p part, Reached nodes p part → ∃ n, part = some n ∧ n.WellFormed p) (n : Node)
    {p : Position} (hn : Reached nodes p (some n)) : ∀ v ∈ visits p (some n), v.cause = none := by
  induction n using Node.induction generalizing p with
  | step n ih =>
    obtain ⟨_, ⟨⟩, hformed⟩ := h p _ hn
    refine (faultless_iff p n).2 ⟨(defect_eq_none_iff p n).2 hformed, fun use huse part hpart => ?_⟩
    have hreached := Reached.used hn huse hpart
    obtain ⟨c, rfl, -⟩ := h _ _ hreached
    exact ih c (mem_parts_of_use hpart) hreached

/-- No visit of a unit finds an error if every node that is reached is there and well formed, and only then. -/
theorem unit_faultless_iff (nodes : List (Option Node)) :
    (∀ v ∈ unitVisits nodes, v.cause = none) ↔
      ∀ p part, Reached nodes p part → ∃ n, part = some n ∧ n.WellFormed p := by
  constructor
  · intro h p part hpart
    have hfaultless := faultless_of_reached h hpart
    cases part with
    | none => exact (not_faultless_none p hfaultless).elim
    | some n => exact ⟨n, rfl, (defect_eq_none_iff p n).1 ((faultless_iff p n).1 hfaultless).1⟩
  · intro h v hv
    obtain ⟨part, hpart, hv⟩ := List.mem_flatMap.1 hv
    have hreached := Reached.top hpart
    obtain ⟨n, rfl, -⟩ := h _ _ hreached
    exact faultless_of_wellFormed h n hreached v hv

/-! ### The first error -/

/-- Visits end well if none of them finds an error, and only then. -/
theorem outcome_ok_iff (file : String) (walk : List Visit) :
    (∃ last, outcome file walk = .ok last) ↔ ∀ v ∈ walk, v.cause = none := by
  induction walk generalizing file with
  | nil => simp [outcome]
  | cons v walk ih =>
    obtain ⟨n, cause⟩ := v
    cases cause with
    | none => simp [outcome, ih]
    | some cause => simp [outcome]

/-- Visits end in the error of the first malformed node, at the place that the nodes before it give it. -/
theorem outcome_error_iff (file : String) (walk : List Visit) (e : BuildError) :
    outcome file walk = .error e ↔ ∃ before n cause after,
      walk = before ++ ⟨n, some cause⟩ :: after ∧ (∀ v ∈ before, v.cause = none) ∧
      e = errorAt (before.foldl (fun file v => fileAfter file v.node) file) n cause := by
  constructor
  · intro h
    induction walk generalizing file with
    | nil => cases h
    | cons v walk ih =>
      obtain ⟨n, cause⟩ := v
      cases cause with
      | none =>
        obtain ⟨before, m, cause, after, rfl, hbefore, rfl⟩ := ih _ h
        exact ⟨⟨n, none⟩ :: before, m, cause, after, rfl,
          List.forall_mem_cons.2 ⟨rfl, hbefore⟩, rfl⟩
      | some cause =>
        cases h
        exact ⟨[], n, cause, walk, rfl, nofun, rfl⟩
  · rintro ⟨before, n, cause, after, rfl, hbefore, rfl⟩
    induction before generalizing file with
    | nil => rfl
    | cons v before ih =>
      obtain ⟨m, cause'⟩ := v
      obtain ⟨hv, hrest⟩ := List.forall_mem_cons.1 hbefore
      obtain rfl : cause' = none := hv
      exact ih _ hrest

/-- A unit is built or rejected by its visits alone. -/
theorem build_cases (nodes : List (Option Node)) :
    (∃ e, outcome "" (unitVisits nodes) = .error e ∧ build nodes = .error e) ∨
      ∃ last decls, outcome "" (unitVisits nodes) = .ok last ∧ build nodes = .ok decls ∧
        List.Forall₂ (Present DeclOf) nodes decls := by
  cases houtcome : outcome "" (unitVisits nodes) with
  | error e => exact .inl ⟨e, rfl, build_of_error houtcome⟩
  | ok last =>
    obtain ⟨decls, hbuild, hdecls⟩ := build_of_ok houtcome
    exact .inr ⟨last, decls, rfl, hbuild, hdecls⟩

/-- A unit is built if no visit of it finds an error, and only then. -/
theorem build_ok_iff (nodes : List (Option Node)) :
    (∃ decls, build nodes = .ok decls) ↔ ∀ v ∈ unitVisits nodes, v.cause = none := by
  rw [← outcome_ok_iff ""]
  obtain ⟨e, houtcome, hbuild⟩ | ⟨last, decls, houtcome, hbuild, -⟩ := build_cases nodes
  · simp [houtcome, hbuild]
  · simp [houtcome, hbuild]

/-- A unit fails to be built with the error that its visits end in, and with no other. -/
theorem build_error_iff (nodes : List (Option Node)) (e : BuildError) :
    build nodes = .error e ↔ outcome "" (unitVisits nodes) = .error e := by
  obtain ⟨e', houtcome, hbuild⟩ | ⟨last, decls, houtcome, hbuild, -⟩ := build_cases nodes
  · simp [houtcome, hbuild]
  · simp [houtcome, hbuild]

/-- What stands behind a malformed node is not looked at. -/
theorem outcome_of_malformed (file : String) (before after : List Visit) {v : Visit}
    (hv : v.cause ≠ none) :
    ∃ e, outcome file (before ++ [v]) = .error e ∧
      outcome file (before ++ v :: after) = .error e := by
  cases houtcome : outcome file (before ++ [v]) with
  | ok last => exact (hv ((outcome_ok_iff file _).1 ⟨last, houtcome⟩ v (by simp))).elim
  | error e =>
    refine ⟨e, rfl, ?_⟩
    rw [List.append_cons, outcome_append, houtcome]
    rfl

/-- Building accepts a unit exactly if all that is reached through the fields that are used is well
formed. What it accepts has one tree for each node, in order. What it rejects is rejected for the
first malformed node that is visited, at its line and column in the file that was named last by
then, whatever would be visited behind it. -/
theorem build_grammar (nodes : List (Option Node)) :
    ((∃ decls, build nodes = .ok decls) ↔
      ∀ p part, Reached nodes p part → ∃ n, part = some n ∧ n.WellFormed p) ∧
    (∀ decls, build nodes = .ok decls → List.Forall₂ (Present DeclOf) nodes decls) ∧
    (∀ e, build nodes = .error e ↔ ∃ before n cause after,
      unitVisits nodes = before ++ ⟨n, some cause⟩ :: after ∧ (∀ v ∈ before, v.cause = none) ∧
      e = errorAt (lastFile before) n cause) ∧
    ∀ other before v after after', v.cause ≠ none → unitVisits nodes = before ++ v :: after →
      unitVisits other = before ++ v :: after' → build other = build nodes := by
  refine ⟨(build_ok_iff nodes).trans (unit_faultless_iff nodes), ?_,
    fun e => (build_error_iff nodes e).trans (outcome_error_iff "" _ e), ?_⟩
  · intro decls hdecls
    obtain ⟨e, -, hbuild⟩ | ⟨last, decls', -, hbuild, hforall⟩ := build_cases nodes
    · cases hdecls.symm.trans hbuild
    · cases hdecls.symm.trans hbuild
      exact hforall
  · intro other before v after after' hv hnodes hother
    obtain ⟨e, hfirst, hthis⟩ := outcome_of_malformed "" before after hv
    obtain ⟨e', hfirst', hthat⟩ := outcome_of_malformed "" before after' hv
    obtain rfl : e = e' := Except.error.inj (hfirst.symm.trans hfirst')
    rw [(build_error_iff nodes e).2 (hnodes ▸ hthis), (build_error_iff other e).2 (hother ▸ hthat)]

example :
    build [some { kind := "function", body := [some { kind := "while", line := 3 }] }] =
      .error ⟨⟨"", 3, 0⟩, .lacks "while" "cond"⟩ := rfl

end Qll.Interchange
