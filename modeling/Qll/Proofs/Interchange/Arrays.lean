import Mathlib.Data.List.Forall2
import Qll.Proofs.Check.Written
import Qll.Proofs.Interchange.Building

/-!
# Array types from node to type

The array types of a unit, with their lengths and places, in the order in which their nodes are
visited. Building makes one of each node that stands for an array type, and of no other node. Its
length is that of the node unless the node is marked as unsized; so the length that marks an unsized
array gets into a type in two ways, by the mark and by being written. Types get entries of their own
afterwards, and their arrays stay as they are.
-/

namespace Qll.Source

/-! ## Arrays that are written -/

mutual

/-- The lengths and places of the array types in a type. -/
def TypeExpr.arrays : TypeExpr → List (Int × Location)
  | .name .. => []
  | .pointer e _ | .slice e _ | .dot e _ _ => e.arrays
  | .array e length l => (length, l) :: e.arrays
  | .struct members _ => membersArrays members
  | .function arguments result _ => resultArrays result ++ typesArrays arguments
  | .apply _ arguments _ => typesArrays arguments

/-- The array types in some types. -/
def typesArrays : List TypeExpr → List (Int × Location)
  | [] => []
  | t :: rest => t.arrays ++ typesArrays rest

/-- The array types in the types of some members. -/
def membersArrays : List (String × TypeExpr × Location) → List (Int × Location)
  | [] => []
  | (_, t, _) :: rest => t.arrays ++ membersArrays rest

/-- The array types in a type, if there is one. -/
def resultArrays : Option TypeExpr → List (Int × Location)
  | none => []
  | some t => t.arrays

end

/-- The array types of a list are those of each type. -/
theorem typesArrays_eq (ts : List TypeExpr) : typesArrays ts = ts.flatMap TypeExpr.arrays := by
  induction ts with
  | nil => rfl
  | cons t rest ih => rw [typesArrays, ih, List.flatMap_cons]

/-- The array types of members are those of each member. -/
theorem membersArrays_eq (members : List (String × TypeExpr × Location)) :
    membersArrays members = members.flatMap fun m => m.2.1.arrays := by
  induction members with
  | nil => rfl
  | cons m rest ih => rw [membersArrays, ih, List.flatMap_cons]

/-- The array types of a result are those of the result, if there is one. -/
theorem resultArrays_eq (t : Option TypeExpr) : resultArrays t = t.elim [] TypeExpr.arrays := by
  cases t <;> rfl

mutual

/-- The array types in the types of an expression. -/
def Expr.arrays : Expr → List (Int × Location)
  | .integer .. | .text .. | .null _ => []
  | .struct target fields _ => fieldsArrays fields ++ target.arrays
  | .array elements _ => exprsArrays elements
  | .name _ arguments _ => typesArrays arguments
  | .call callee arguments _ => callee.arrays ++ exprsArrays arguments
  | .member base _ _ | .arrow base _ _ => base.arrays
  | .index base position _ _ => base.arrays ++ position.arrays
  | .cast target operand _ => target.arrays ++ operand.arrays
  | .sizeOf target _ => target.arrays
  | .new target count _ => target.arrays ++ initArrays count
  | .binary _ left right _ => left.arrays ++ right.arrays
  | .unary _ operand _ => operand.arrays

/-- The array types in the types of some expressions. -/
def exprsArrays : List Expr → List (Int × Location)
  | [] => []
  | e :: rest => e.arrays ++ exprsArrays rest

/-- The array types in the types of some fields. -/
def fieldsArrays : List (String × Expr × Location) → List (Int × Location)
  | [] => []
  | (_, e, _) :: rest => e.arrays ++ fieldsArrays rest

/-- The array types in the types of an expression, if there is one. -/
def initArrays : Option Expr → List (Int × Location)
  | none => []
  | some e => e.arrays

end

/-- The array types of a list are those of each expression. -/
theorem exprsArrays_eq (es : List Expr) : exprsArrays es = es.flatMap Expr.arrays := by
  induction es with
  | nil => rfl
  | cons e rest ih => rw [exprsArrays, ih, List.flatMap_cons]

/-- The array types of fields are those of each field. -/
theorem fieldsArrays_eq (fields : List (String × Expr × Location)) :
    fieldsArrays fields = fields.flatMap fun f => f.2.1.arrays := by
  induction fields with
  | nil => rfl
  | cons f rest ih => rw [fieldsArrays, ih, List.flatMap_cons]

/-- The array types of an initial value are those of the value, if there is one. -/
theorem initArrays_eq (e : Option Expr) : initArrays e = e.elim [] Expr.arrays := by
  cases e <;> rfl

mutual

/-- The array types in the types of a statement. -/
def Stmt.arrays : Stmt → List (Int × Location)
  | .expression value _ | .delete value _ => value.arrays
  | .var _ type init _ => resultArrays type ++ initArrays init
  | .assign target value _ => target.arrays ++ value.arrays
  | .cond condition yes no _ => condition.arrays ++ (stmtsArrays yes ++ stmtsArrays no)
  | .whileLoop condition body _ => condition.arrays ++ stmtsArrays body
  | .forLoop init condition step body _ =>
    stmtsArrays body ++ (stepArrays init ++ (initArrays condition ++ stepArrays step))
  | .breakLoop _ => []
  | .giveBack value _ => initArrays value
  | .block body _ => stmtsArrays body

/-- The array types in the types of a statement, if there is one. -/
def stepArrays : Option Stmt → List (Int × Location)
  | none => []
  | some s => s.arrays

/-- The array types in the types of some statements. -/
def stmtsArrays : List Stmt → List (Int × Location)
  | [] => []
  | s :: rest => s.arrays ++ stmtsArrays rest

end

/-- The array types of a list are those of each statement. -/
theorem stmtsArrays_eq (ss : List Stmt) : stmtsArrays ss = ss.flatMap Stmt.arrays := by
  induction ss with
  | nil => rfl
  | cons s rest ih => rw [stmtsArrays, ih, List.flatMap_cons]

/-- The array types of a step are those of the step, if there is one. -/
theorem stepArrays_eq (s : Option Stmt) : stepArrays s = s.elim [] Stmt.arrays := by
  cases s <;> rfl

mutual

/-- The array types in a declaration. -/
def Decl.arrays : Decl → List (Int × Location)
  | .type _ _ definition _ => definition.arrays
  | .global _ type init _ _ => resultArrays type ++ initArrays init
  | .function _ _ params result body _ _ _ =>
    params.flatMap (·.type.arrays) ++ (resultArrays result ++ stmtsArrays body)
  | .use .. => []
  | .space _ decls _ => declsArrays decls

/-- The array types in some declarations. -/
def declsArrays : List Decl → List (Int × Location)
  | [] => []
  | d :: rest => d.arrays ++ declsArrays rest

end

/-- The array types of a list are those of each declaration. -/
theorem declsArrays_eq (ds : List Decl) : declsArrays ds = ds.flatMap Decl.arrays := by
  induction ds with
  | nil => rfl
  | cons d rest ih => rw [declsArrays, ih, List.flatMap_cons]

end Qll.Source

namespace Qll.Interchange

open Source (Location TypeExpr Expr Stmt Decl Parameter)

/-! ## Nodes that stand for array types -/

/-- The nodes of array types that are visited. Only types have their kind. -/
def arrayNodes (walk : List Visit) : List Node :=
  (walk.map (·.node)).filter (·.kind = "array")

/-- What is built of the node of an array type. -/
def ArrayOf (n : Node) (a : Int × Location) : Prop :=
  a.1 = (if n.has "unsized" then Types.unsized else n.length) ∧ At n a.2

/-- Some visits, if nothing is wrong, are to the nodes of these array types. -/
def Shows (walk : List Visit) (arrays : List (Int × Location)) : Prop :=
  (∀ v ∈ walk, v.cause = none) → List.Forall₂ ArrayOf (arrayNodes walk) arrays

/-- The array nodes of visits are those of the earlier and then of the later ones. -/
theorem arrayNodes_append (walk more : List Visit) :
    arrayNodes (walk ++ more) = arrayNodes walk ++ arrayNodes more := by
  simp [arrayNodes]

namespace Shows

variable {p q : Position} {n m : Node} {walk more : List Visit} {kind : String} {uses : List Use}
  {as bs : List (Int × Location)} {α : Type} {R : Node → α → Prop} {f : α → List (Int × Location)}

/-- No visits show no array types. -/
theorem nil : Shows [] [] := fun _ => .nil

/-- Visits show the array types of the earlier and then of the later ones. -/
theorem append (h : Shows walk as) (h' : Shows more bs) : Shows (walk ++ more) (as ++ bs) := by
  intro hfine
  rw [List.forall_mem_append] at hfine
  rw [arrayNodes_append]
  exact List.rel_append (h hfine.1) (h' hfine.2)

/-- What is shown where nothing is wrong. -/
theorem of_defect (h : p.defect (some n) = none → Shows (visits p (some n)) as) :
    Shows (visits p (some n)) as := by
  cases hdefect : p.defect (some n) with
  | none => exact h hdefect
  | some cause =>
    rw [visits_malformed hdefect]
    exact fun hfine => absurd (hfine _ (List.mem_singleton_self _)) (Option.some_ne_none cause)

/-- A node of another kind shows what its fields do. -/
theorem node (hkind : n.kind = kind) (huses : p.uses kind = uses) (hother : kind ≠ "array")
    (h : Shows (uses.flatMap (Use.visits n)) as) : Shows (visits p (some n)) as := by
  subst hkind huses
  have hself : Shows [⟨n, none⟩] [] := fun _ => by simp [arrayNodes, hother]
  refine of_defect fun hdefect => ?_
  rw [visits_wellFormed hdefect]
  split
  · exact hself.append h
  · simpa using h.append hself

/-- The node of an array type comes before those below it. -/
theorem array (hkind : n.kind = "array") {a : Int × Location} (ha : ArrayOf n a)
    (h : Shows ((Use.one .type .type).visits n) as) : Shows (visits .type (some n)) (a :: as) := by
  have hself : Shows [⟨n, none⟩] [a] := fun _ => by simp [arrayNodes, hkind, ha]
  have huses : Position.uses .type n.kind = [.one .type .type] := by rw [hkind]; rfl
  refine of_defect fun hdefect => ?_
  rw [visits_wellFormed hdefect, huses, List.flatMap_singleton]
  exact hself.append h

/-! ### Fields -/

/-- Behind the last field nothing is shown. -/
theorem done : Shows (([] : List Use).flatMap (Use.visits n)) [] := nil

/-- A field shows its array types in front of those of the other fields. -/
theorem use {use : Use} (h : Shows (use.visits n) as) (h' : Shows (uses.flatMap (Use.visits n)) bs) :
    Shows ((use :: uses).flatMap (Use.visits n)) (as ++ bs) := by
  rw [List.flatMap_cons]
  exact h.append h'

/-- The last field. -/
theorem last {use : Use} (h : Shows (use.visits n) as) : Shows ([use].flatMap (Use.visits n)) as := by
  rwa [List.flatMap_singleton]

/-- All nodes of a list, each of which shows what it means. -/
theorem each {nodes : List (Option Node)} {R : Option Node → α → Prop}
    {as : List α} (has : List.Forall₂ R nodes as)
    (h : ∀ part ∈ nodes, ∀ a, R part a → Shows (visits p part) (f a)) :
    Shows (nodes.flatMap (visits p)) (as.flatMap f) := by
  induction has with
  | nil => exact .nil
  | cons ha _ ih =>
    rw [List.forall_mem_cons] at h
    rw [List.flatMap_cons, List.flatMap_cons]
    exact (h.1 _ ha).append (ih h.2)

end Shows

/-- What is built of nodes of less than some height, and the array types that it shows. -/
def ShowsBelow {α : Type} (height : Nat) (p : Position) (R : Node → α → Prop)
    (f : α → List (Int × Location)) : Prop :=
  ∀ n : Node, n.height < height → ∀ a, R n a → Shows (visits p (some n)) (f a)

namespace ShowsBelow

variable {p : Position} {n m : Node} {α : Type} {R : Node → α → Prop} {f : α → List (Int × Location)}

/-- A node below another one shows the array types of what it means. -/
theorem part (h : ShowsBelow n.height p R f) (hm : some m ∈ n.parts) {a : α} (ha : R m a) :
    Shows (visits p (some m)) (f a) := h m (height_lt hm) a ha

/-- A child shows the array types of what it means. -/
theorem child (h : ShowsBelow n.height p R f) (c : Child) (hc : n.child c = some m) {a : α}
    (ha : R m a) : Shows ((Use.one c p).visits n) (f a) := by
  have hvisits : (Use.one c p).visits n = visits p (some m) := by
    simp [Use.visits, Use.parts, Use.position, hc]
  rw [hvisits]
  exact h.part (hc ▸ child_mem_parts n c) ha

/-- A child that may be missing shows the array types of what it means, or none. -/
theorem option (h : ShowsBelow n.height p R f) (c : Child) {o : Option α}
    (ho : Option.Rel R (n.child c) o) : Shows ((Use.maybe c p).visits n) (o.elim [] f) := by
  have hvisits : (Use.maybe c p).visits n = (n.child c).toList.flatMap fun m => visits p (some m) := by
    simp [Use.visits, Use.parts, Use.position, List.flatMap_map]
  have hpart (m : Node) (hm : n.child c = some m) : some m ∈ n.parts := hm ▸ child_mem_parts n c
  rw [hvisits]
  generalize n.child c = part at ho hpart
  cases ho with
  | none => exact .nil
  | some ha =>
    rw [Option.toList_some, List.flatMap_singleton]
    exact h.part (hpart _ rfl) ha

/-- A row of nodes shows the array types of what they mean. -/
theorem row (h : ShowsBelow n.height p R f) (r : Row) {as : List α}
    (has : List.Forall₂ (Present R) (n.row r) as) : Shows ((Use.each r p).visits n) (as.flatMap f) :=
  .each has fun part hpart a ha => by
    cases ha with
    | mk ha => exact h.part (mem_parts (row_mem_partLists n r) hpart) ha

/-- Members and fields: the node around a child is of another kind. -/
theorem named (h : ShowsBelow n.height p R f) (r : Row) {q : Position} {kind : String} {c : Child}
    (huses : q.uses kind = [.one c p]) (hother : kind ≠ "array") {as : List (String × α × Location)}
    (has : List.Forall₂ (Named kind c R) (n.row r) as) :
    Shows ((Use.each r q).visits n) (as.flatMap fun a => f a.2.1) :=
  .each has fun part hpart a ha => by
    cases ha with
    | @mk m m' _ _ hkind hchild ha _ =>
      have hm := height_lt (mem_parts (row_mem_partLists n r) hpart)
      have hbelow : ShowsBelow m.height p R f := fun k hk => h k (Nat.lt_trans hk hm)
      exact .node hkind huses hother (.last (hbelow.child c hchild ha))

end ShowsBelow

/-- The visits of a type show its array types. -/
theorem shows_type (height : Nat) : ShowsBelow height .type TypeOf TypeExpr.arrays := by
  induction height with
  | zero => exact fun n hn => absurd hn (Nat.not_lt_zero _)
  | succ height ih =>
    intro n hn t ht
    have hbelow : ShowsBelow n.height .type TypeOf TypeExpr.arrays := fun m hm => ih m (by omega)
    cases ht with
    | name hkind => exact .node hkind rfl (by decide) .done
    | pointer hkind hc ht =>
      rw [TypeExpr.arrays]
      exact .node hkind rfl (by decide) (.last (hbelow.child .type hc ht))
    | array hkind hc ht hl => exact .array hkind ⟨rfl, hl⟩ (hbelow.child .type hc ht)
    | slice hkind hc ht =>
      rw [TypeExpr.arrays]
      exact .node hkind rfl (by decide) (.last (hbelow.child .type hc ht))
    | struct hkind hmembers =>
      rw [TypeExpr.arrays, Source.membersArrays_eq]
      exact .node hkind rfl (by decide) (.last (hbelow.named .members rfl (by decide) hmembers))
    | function hkind harguments hresult =>
      rw [TypeExpr.arrays, Source.resultArrays_eq, Source.typesArrays_eq]
      exact .node hkind rfl (by decide)
        (.use (hbelow.option .type hresult) (.last (hbelow.row .types harguments)))
    | apply hkind harguments =>
      rw [TypeExpr.arrays, Source.typesArrays_eq]
      exact .node hkind rfl (by decide) (.last (hbelow.row .types harguments))
    | dot hkind hc ht =>
      rw [TypeExpr.arrays]
      exact .node hkind rfl (by decide) (.last (hbelow.child .type hc ht))

/-- The visits of an expression show its array types. -/
theorem shows_expr (height : Nat) : ShowsBelow height .expression ExprOf Expr.arrays := by
  induction height with
  | zero => exact fun n hn => absurd hn (Nat.not_lt_zero _)
  | succ height ih =>
    intro n hn e he
    have htype := shows_type n.height
    have hbelow : ShowsBelow n.height .expression ExprOf Expr.arrays := fun m hm => ih m (by omega)
    cases he with
    | integer hkind => exact .node hkind rfl (by decide) .done
    | text hkind => exact .node hkind rfl (by decide) .done
    | null hkind => exact .node hkind rfl (by decide) .done
    | name hkind harguments =>
      rw [Expr.arrays, Source.typesArrays_eq]
      exact .node hkind rfl (by decide) (.last (htype.row .types harguments))
    | binary hkind _ ha hleft hb hright =>
      exact .node hkind rfl (by decide)
        (.use (hbelow.child .left ha hleft) (.last (hbelow.child .right hb hright)))
    | unary hkind _ hc h =>
      rw [Expr.arrays]
      exact .node hkind rfl (by decide) (.last (hbelow.child .expr hc h))
    | member hkind hc h =>
      rw [Expr.arrays]
      exact .node hkind rfl (by decide) (.last (hbelow.child .expr hc h))
    | arrow hkind hc h =>
      rw [Expr.arrays]
      exact .node hkind rfl (by decide) (.last (hbelow.child .expr hc h))
    | index hkind ha hbase hb hposition =>
      exact .node hkind rfl (by decide)
        (.use (hbelow.child .left ha hbase) (.last (hbelow.child .right hb hposition)))
    | call hkind hc h harguments =>
      rw [Expr.arrays, Source.exprsArrays_eq]
      exact .node hkind rfl (by decide)
        (.use (hbelow.child .expr hc h) (.last (hbelow.row .args harguments)))
    | cast hkind ha htarget hb hoperand =>
      exact .node hkind rfl (by decide)
        (.use (htype.child .type ha htarget) (.last (hbelow.child .expr hb hoperand)))
    | sizeOf hkind hc h => exact .node hkind rfl (by decide) (.last (htype.child .type hc h))
    | new hkind hc h hcount =>
      rw [Expr.arrays, Source.initArrays_eq]
      exact .node hkind rfl (by decide)
        (.use (htype.child .type hc h) (.last (hbelow.option .expr hcount)))
    | struct hkind hc h hfields =>
      rw [Expr.arrays, Source.fieldsArrays_eq]
      exact .node hkind rfl (by decide)
        (.use (hbelow.named .members rfl (by decide) hfields) (.last (htype.child .type hc h)))
    | array hkind helements =>
      rw [Expr.arrays, Source.exprsArrays_eq]
      exact .node hkind rfl (by decide) (.last (hbelow.row .args helements))

/-- The visits of a statement show its array types. -/
theorem shows_stmt (height : Nat) : ShowsBelow height .statement StmtOf Stmt.arrays := by
  induction height with
  | zero => exact fun n hn => absurd hn (Nat.not_lt_zero _)
  | succ height ih =>
    intro n hn s hs
    have htype := shows_type n.height
    have hexpr := shows_expr n.height
    have hbelow : ShowsBelow n.height .statement StmtOf Stmt.arrays := fun m hm => ih m (by omega)
    cases hs with
    | expression hkind hc h => exact .node hkind rfl (by decide) (.last (hexpr.child .expr hc h))
    | var hkind ht hinit =>
      rw [Stmt.arrays, Source.resultArrays_eq, Source.initArrays_eq]
      exact .node hkind rfl (by decide)
        (.use (htype.option .type ht) (.last (hexpr.option .expr hinit)))
    | assign hkind ha htarget hb hvalue =>
      exact .node hkind rfl (by decide)
        (.use (hexpr.child .left ha htarget) (.last (hexpr.child .right hb hvalue)))
    | cond hkind hc h hyes hno =>
      rw [Stmt.arrays, Source.stmtsArrays_eq, Source.stmtsArrays_eq]
      exact .node hkind rfl (by decide) (.use (hexpr.child .cond hc h)
        (.use (hbelow.row .body hyes) (.last (hbelow.row .otherwise hno))))
    | whileLoop hkind hc h hbody =>
      rw [Stmt.arrays, Source.stmtsArrays_eq]
      exact .node hkind rfl (by decide)
        (.use (hexpr.child .cond hc h) (.last (hbelow.row .body hbody)))
    | forLoop hkind hinit hcondition hstep hbody =>
      rw [Stmt.arrays, Source.stmtsArrays_eq, Source.stepArrays_eq, Source.stepArrays_eq,
        Source.initArrays_eq]
      exact .node hkind rfl (by decide) (.use (hbelow.row .body hbody)
        (.use (hbelow.option .init hinit)
          (.use (hexpr.option .cond hcondition) (.last (hbelow.option .step hstep)))))
    | breakLoop hkind => exact .node hkind rfl (by decide) .done
    | giveBack hkind hvalue =>
      rw [Stmt.arrays, Source.initArrays_eq]
      exact .node hkind rfl (by decide) (.last (hexpr.option .expr hvalue))
    | block hkind hbody =>
      rw [Stmt.arrays, Source.stmtsArrays_eq]
      exact .node hkind rfl (by decide) (.last (hbelow.row .body hbody))
    | delete hkind hc h => exact .node hkind rfl (by decide) (.last (hexpr.child .expr hc h))

/-- The visits of a parameter show its array types. -/
theorem shows_param (height : Nat) : ShowsBelow height .param ParamOf (·.type.arrays) := by
  intro n _ p hp
  cases hp with
  | mk hkind hc h =>
    exact .node hkind rfl (by decide) (.last ((shows_type n.height).child .type hc h))

/-- The visits of a declaration show its array types. -/
theorem shows_decl (height : Nat) : ShowsBelow height .declaration DeclOf Decl.arrays := by
  induction height with
  | zero => exact fun n hn => absurd hn (Nat.not_lt_zero _)
  | succ height ih =>
    intro n hn d hd
    have htype := shows_type n.height
    have hbelow : ShowsBelow n.height .declaration DeclOf Decl.arrays := fun m hm => ih m (by omega)
    cases hd with
    | type hkind hc h => exact .node hkind rfl (by decide) (.last (htype.child .type hc h))
    | global hkind ht hinit =>
      rw [Decl.arrays, Source.resultArrays_eq, Source.initArrays_eq]
      exact .node hkind rfl (by decide)
        (.use (htype.option .type ht) (.last ((shows_expr n.height).option .expr hinit)))
    | function hkind hparams hresult hbody =>
      rw [Decl.arrays, Source.resultArrays_eq, Source.stmtsArrays_eq]
      exact .node hkind rfl (by decide) (.use ((shows_param n.height).row .args hparams)
        (.use (htype.option .type hresult) (.last ((shows_stmt n.height).row .body hbody))))
    | use hkind => exact .node hkind rfl (by decide) .done
    | space hkind hdecls =>
      rw [Decl.arrays, Source.declsArrays_eq]
      exact .node hkind rfl (by decide) (.last (hbelow.row .body hdecls))

/-- What is built of a unit means what its nodes say, one by one. -/
theorem forall₂_of_build {nodes : List (Option Node)} {decls : List Decl}
    (h : build nodes = .ok decls) : List.Forall₂ (Present DeclOf) nodes decls := by
  obtain ⟨e, -, he⟩ | ⟨last, decls', -, hdecls, hforall⟩ := build_cases nodes
  · cases h.symm.trans he
  · cases h.symm.trans hdecls
    exact hforall

/-- Building makes one array type of each node that stands for one, in the order in which they are
visited. -/
theorem arrays_of_build {nodes : List (Option Node)} {decls : List Decl} (h : build nodes = .ok decls) :
    List.Forall₂ ArrayOf (arrayNodes (unitVisits nodes)) (Source.declsArrays decls) := by
  have hfine := (build_ok_iff nodes).1 ⟨decls, h⟩
  have hshows : Shows (unitVisits nodes) (decls.flatMap Decl.arrays) :=
    .each (forall₂_of_build h) fun part _ d hd => by
      cases hd with
      | mk hd => exact shows_decl _ _ (Nat.lt_succ_self _) _ hd
  rw [Source.declsArrays_eq]
  exact hshows hfine

end Qll.Interchange

namespace Qll.Types

open Source (Location)

mutual

/-- The lengths and places of the array types in a type. -/
def Ty.arrays : Ty → List (Int × Option Location)
  | .builtin .. | .name .. | .var _ | .template _ => []
  | .pointer e _ | .slice e _ | .dot e _ _ => e.arrays
  | .array e length l => (length, l) :: e.arrays
  | .struct members _ => membersArrays members
  | .function arguments result _ => result.arrays ++ typesArrays arguments
  | .apply _ _ _ arguments _ => typesArrays arguments

/-- The array types in some types. -/
def typesArrays : List Ty → List (Int × Option Location)
  | [] => []
  | t :: rest => t.arrays ++ typesArrays rest

/-- The array types in the types of some members. -/
def membersArrays : List (Member Ty) → List (Int × Option Location)
  | [] => []
  | m :: rest => m.type.arrays ++ membersArrays rest

end

end Qll.Types

namespace Qll.Check

open Qll.Computation
open Source (Location TypeExpr)
open Qll.Types (Ty Store Member)

/-- An array that is written, as it stands in a type. -/
def placed (a : Int × Location) : Int × Option Location := (a.1, some a.2)

mutual

/-- A type that gets entries of its own keeps its arrays. -/
theorem arrays_internType : ∀ (t : TypeExpr) {T T' : Store} {u : Ty},
    internType t T = .ok u T' → u.arrays = t.arrays.map placed
  | .name text l, T, T', u, h => by
    obtain ⟨rfl, rfl⟩ := newName_ok h
    rfl
  | .pointer e l, T, T', u, h | .slice e l, T, T', u, h | .dot e _ l, T, T', u, h => by
    simp only [internType, bind_ok, pure_ok] at h
    obtain ⟨v, _, hv, rfl, rfl⟩ := h
    rw [Ty.arrays, TypeExpr.arrays]
    exact arrays_internType e hv
  | .array e length l, T, T', u, h => by
    simp only [internType, bind_ok, pure_ok] at h
    obtain ⟨v, _, hv, rfl, rfl⟩ := h
    exact congrArg ((length, some l) :: ·) (arrays_internType e hv)
  | .struct members l, T, T', u, h => by
    simp only [internType, bind_ok, pure_ok] at h
    obtain ⟨ms, _, hms, rfl, rfl⟩ := h
    exact arrays_internMembers members hms
  | .function arguments result l, T, T', u, h => by
    simp only [internType, bind_ok, pure_ok] at h
    obtain ⟨as, T₁, has, r, T₂, hr, rfl, rfl⟩ := h
    rw [Ty.arrays, TypeExpr.arrays, List.map_append, arrays_internTypes arguments has,
      arrays_internResult result hr]
  | .apply text arguments l, T, T', u, h => by
    simp only [internType, bind_ok] at h
    obtain ⟨as, T₁, has, h⟩ := h
    obtain ⟨rfl, rfl⟩ := newApply_ok h
    rw [Ty.arrays, TypeExpr.arrays, arrays_internTypes arguments has]

/-- Types that get entries of their own keep their arrays. -/
theorem arrays_internTypes : ∀ (ts : List TypeExpr) {T T' : Store} {us : List Ty},
    internTypes ts T = .ok us T' → Types.typesArrays us = (Source.typesArrays ts).map placed
  | [], T, T', us, h => by
    obtain ⟨rfl, rfl⟩ := pure_ok.1 h
    rfl
  | t :: rest, T, T', us, h => by
    simp only [internTypes, bind_ok, pure_ok] at h
    obtain ⟨u, T₁, hu, us, T₂, hus, rfl, rfl⟩ := h
    rw [Types.typesArrays, Source.typesArrays, List.map_append, arrays_internType t hu,
      arrays_internTypes rest hus]

/-- Members that get entries of their own keep their arrays. -/
theorem arrays_internMembers : ∀ (ms : List (String × TypeExpr × Location)) {T T' : Store}
    {us : List (Member Ty)}, internMembers ms T = .ok us T' →
      Types.membersArrays us = (Source.membersArrays ms).map placed
  | [], T, T', us, h => by
    obtain ⟨rfl, rfl⟩ := pure_ok.1 h
    rfl
  | (name, t, l) :: rest, T, T', us, h => by
    simp only [internMembers, bind_ok, pure_ok] at h
    obtain ⟨u, T₁, hu, us, T₂, hus, rfl, rfl⟩ := h
    rw [Types.membersArrays, Source.membersArrays, List.map_append, arrays_internType t hu,
      arrays_internMembers rest hus]

/-- A result that gets entries of its own keeps its arrays. -/
theorem arrays_internResult : ∀ (t : Option TypeExpr) {T T' : Store} {u : Ty},
    internResult t T = .ok u T' → u.arrays = (Source.resultArrays t).map placed
  | none, T, T', u, h => by
    obtain ⟨rfl, rfl⟩ := pure_ok.1 h
    rfl
  | some t, T, T', u, h => arrays_internType t h

end

end Qll.Check
