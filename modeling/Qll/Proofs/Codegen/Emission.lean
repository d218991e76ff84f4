import Mathlib.Data.List.Nodup
import Mathlib.Data.List.Perm.Basic
import Mathlib.Data.List.TakeWhile
import Mathlib.Data.Set.Insert
import Qll.Codegen.Call
import Qll.Proofs.Assembly.Closed
import Qll.Proofs.Codegen.Building

/-!
# Labels of emitted code

`Emits ext placed r r'` says what building a routine from `r` to `r'` does to its labels: code and
data are appended, they define the labels `placed` and besides them only labels that were made on
the way, each once, and they refer to labels that they define themselves or that are known from
elsewhere, in `ext`. No interrupt is ended on the way. A label that is made and placed on the way is
neither known nor left to be placed outside, which is the rule `Writes.newLabel`; with it every
computation is taken apart along its own steps.
-/

namespace Qll.Codegen

open Assembly (Directive labels references)
open Machine (Register Opcode Word addExtent ins pushCode popCode)
open Qll.Computation

/-! ## Labels that a routine makes -/

/-- The label that a routine makes with a hint and a number. -/
def madeLabel (name hint : String) (n : Nat) : String := name ++ "$" ++ hint ++ Nat.repr n

/-- The hints of labels have no digits, so that the number of a label can be read off, and no
blanks. -/
def IsHint (hint : String) : Prop := ∀ c ∈ hint.toList, c.isDigit = false ∧ c ≠ ' '

instance (hint : String) : Decidable (IsHint hint) :=
  List.decidableBAll _ hint.toList

/-- A text without digits in front of a number is the longest one. -/
theorem takeWhile_hint {hint : String} (h : IsHint hint) (n : Nat) :
    (hint.toList ++ (Nat.repr n).toList).takeWhile (fun c => !c.isDigit) = hint.toList := by
  have hdigits : ∀ c ∈ (Nat.repr n).toList, c.isDigit = true := by
    rw [Nat.toList_repr]
    exact fun c hc => Nat.isDigit_of_mem_toDigits (by decide) (by decide) hc
  have hnone : (Nat.repr n).toList.takeWhile (fun c => !c.isDigit) = [] := by
    cases hrepr : (Nat.repr n).toList with
    | nil => rfl
    | cons c cs => simp [hdigits c (by simp [hrepr])]
  rw [List.takeWhile_append_of_pos fun c hc => by simp [(h c hc).1], hnone, List.append_nil]

/-- A label tells its hint and its number. -/
theorem madeLabel_inj {name hint hint' : String} {n n' : Nat} (h : IsHint hint) (h' : IsHint hint')
    (heq : madeLabel name hint n = madeLabel name hint' n') : hint = hint' ∧ n = n' := by
  have hlist : hint.toList ++ (Nat.repr n).toList = hint'.toList ++ (Nat.repr n').toList := by
    have hall := congrArg String.toList heq
    simp only [madeLabel, String.toList_append, List.append_assoc, List.append_cancel_left_eq] at hall
    exact hall
  have hhint : hint.toList = hint'.toList := by
    rw [← takeWhile_hint h n, hlist, takeWhile_hint h' n']
  rw [hhint, List.append_cancel_left_eq, Nat.toList_repr, Nat.toList_repr] at hlist
  refine ⟨String.toList_inj.1 hhint, ?_⟩
  calc n = Nat.ofDigitChars 10 (Nat.toDigits 10 n) 0 := Nat.ofDigitChars_ten_toDigits.symm
    _ = Nat.ofDigitChars 10 (Nat.toDigits 10 n') 0 := by rw [hlist]
    _ = n' := Nat.ofDigitChars_ten_toDigits

/-- Distinct labels made by the routine `name` with numbers above `low` and up to `high`. -/
structure Made (name : String) (low high : Nat) (new : List String) : Prop where
  nodup : new.Nodup
  form : ∀ l ∈ new, ∃ hint n, IsHint hint ∧ low < n ∧ n ≤ high ∧ l = madeLabel name hint n

namespace Made

variable {name : String} {low mid high : Nat} {new more : List String}

/-- No labels. -/
theorem nil : Made name low high [] := ⟨List.nodup_nil, by simp⟩

/-- Labels with numbers in a part are labels with numbers in the whole. -/
theorem mono {low' high' : Nat} (h : Made name low high new) (hlow : low' ≤ low)
    (hhigh : high ≤ high') : Made name low' high' new where
  nodup := h.nodup
  form l hl := by
    obtain ⟨hint, n, hhint, hn, hn', rfl⟩ := h.form l hl
    exact ⟨hint, n, hhint, by omega, by omega, rfl⟩

/-- Labels with higher numbers are other labels. -/
theorem append (h : Made name low mid new) (h' : Made name mid high more) (hlow : low ≤ mid)
    (hhigh : mid ≤ high) : Made name low high (new ++ more) where
  nodup := by
    refine List.nodup_append.2 ⟨h.nodup, h'.nodup, fun l hl l' hl' heq => ?_⟩
    obtain ⟨hint, n, hhint, -, hle, rfl⟩ := h.form l hl
    obtain ⟨hint', n', hhint', hlt, -, rfl⟩ := h'.form l' hl'
    have hn := (madeLabel_inj hhint hhint' heq).2
    omega
  form l hl := by
    rcases List.mem_append.1 hl with hl | hl
    · exact (h.mono (Nat.le_refl _) hhigh).form l hl
    · exact (h'.mono hlow (Nat.le_refl _)).form l hl

/-- One label. -/
theorem singleton {hint : String} (h : IsHint hint) (n : Nat) :
    Made name n (n + 1) [madeLabel name hint (n + 1)] where
  nodup := List.nodup_singleton _
  form l hl := ⟨hint, n + 1, h, by omega, by omega, List.mem_singleton.1 hl⟩

end Made

/-! ## Emission -/

/-- Whether a directive ends an interrupt. -/
def endsInterrupt : Directive → Bool
  | .instruction i => i.op == .rti
  | _ => false

/-- Whether a frame is that of an interrupt handler. -/
def Frame.isHandler : Frame → Bool
  | .stack f => f.interrupt
  | _ => false

/-- What building does to the labels of a routine. -/
structure Emits (ext : Set String) (placed : List String) (r r' : Routine) : Prop where
  name : r'.name = r.name
  exits : r'.exits = r.exits
  kind : SameKind r.frame r'.frame
  handler : r'.frame.isHandler = r.frame.isHandler
  labels : r.labels ≤ r'.labels
  calls : r.calls = true → r'.calls = true
  returns : ∀ d ∈ r'.code.toList ++ r'.data.toList, endsInterrupt d = true →
    d ∈ r.code.toList ++ r.data.toList
  added : ∃ code data new, r'.code.toList = r.code.toList ++ code ∧
    r'.data.toList = r.data.toList ++ data ∧
    (Assembly.labels (code ++ data)).Perm (placed ++ new) ∧ Made r.name r.labels r'.labels new ∧
    ∀ l ∈ references (code ++ data), l ∈ Assembly.labels (code ++ data) ∨ l ∈ ext

namespace Emits

variable {ext : Set String} {placed placed' : List String} {r r₁ r' : Routine} {l : String}

/-- Nothing is emitted. -/
theorem refl (ext : Set String) (r : Routine) : Emits ext [] r r :=
  ⟨rfl, rfl, .refl _, rfl, Nat.le_refl _, id, fun _ hd _ => hd, [], [], [], by simp, by simp, .refl _, .nil,
    by simp⟩

/-- Code after other code. -/
theorem trans (h : Emits ext placed r r₁) (h' : Emits ext placed' r₁ r') :
    Emits ext (placed ++ placed') r r' := by
  obtain ⟨code, data, new, hcode, hdata, hperm, hmade, hrefs⟩ := h.added
  obtain ⟨code', data', new', hcode', hdata', hperm', hmade', hrefs'⟩ := h'.added
  rw [h.name] at hmade'
  have hlabels : (Assembly.labels (code ++ code' ++ (data ++ data'))).Perm
      (Assembly.labels (code ++ data) ++ Assembly.labels (code' ++ data')) := by
    simp only [Assembly.labels_append, List.append_assoc]
    exact (List.perm_append_comm_assoc _ _ _).append_left _
  refine ⟨h'.name.trans h.name, h'.exits.trans h.exits, h.kind.trans h'.kind,
    h'.handler.trans h.handler,
    Nat.le_trans h.labels h'.labels, fun hr => h'.calls (h.calls hr),
    fun d hd hends => h.returns d (h'.returns d hd hends) hends, code ++ code', data ++ data',
    new ++ new', ?_, ?_, ?_, hmade.append hmade' h.labels h'.labels, ?_⟩
  · rw [hcode', hcode, List.append_assoc]
  · rw [hdata', hdata, List.append_assoc]
  · refine hlabels.trans ((hperm.append hperm').trans ?_)
    simp only [List.append_assoc]
    exact (List.perm_append_comm_assoc _ _ _).append_left _
  · intro l hl
    have hmem : l ∈ references (code ++ data) ∨ l ∈ references (code' ++ data') := by
      simp only [Assembly.references_append, List.mem_append] at hl ⊢
      tauto
    rcases hmem with hl | hl
    · exact (hrefs l hl).imp_left fun h => hlabels.symm.subset (List.mem_append_left _ h)
    · exact (hrefs' l hl).imp_left fun h => hlabels.symm.subset (List.mem_append_right _ h)

/-- The order of the labels to be placed does not matter. -/
theorem perm (h : Emits ext placed r r') (hperm : placed.Perm placed') :
    Emits ext placed' r r' := by
  obtain ⟨code, data, new, hcode, hdata, hlabels, hrest⟩ := h.added
  exact ⟨h.name, h.exits, h.kind, h.handler, h.labels, h.calls, h.returns, code, data, new, hcode, hdata,
    hlabels.trans (hperm.append_right new), hrest⟩

/-- A label that is made and placed on the way is one of the new ones, and references to it are
references to the code itself. -/
theorem close {hint : String} (hhint : IsHint hint)
    (h : Emits (insert (madeLabel r.name hint (r.labels + 1)) ext)
      (madeLabel r.name hint (r.labels + 1) :: placed) (r.withLabels (r.labels + 1)) r') :
    Emits ext placed r r' := by
  obtain ⟨code, data, new, hcode, hdata, hlabels, hmade, hrefs⟩ := h.added
  have hle : r.labels + 1 ≤ r'.labels := h.labels
  refine ⟨h.name, h.exits, h.kind, h.handler, by omega, h.calls, h.returns, code, data,
    madeLabel r.name hint (r.labels + 1) :: new, hcode, hdata,
    hlabels.trans List.perm_middle.symm, (Made.singleton hhint r.labels).append hmade (by omega) hle,
    fun l hl => ?_⟩
  rcases hrefs l hl with hl | rfl | hl
  · exact .inl hl
  · exact .inl (hlabels.symm.subset (by simp))
  · exact .inr hl

/-- A label that is made and not used. -/
theorem skip (h : Emits ext placed (r.withLabels (r.labels + 1)) r') : Emits ext placed r r' := by
  obtain ⟨code, data, new, hcode, hdata, hlabels, hmade, hrefs⟩ := h.added
  have hle : r.labels + 1 ≤ r'.labels := h.labels
  exact ⟨h.name, h.exits, h.kind, h.handler, by omega, h.calls, h.returns, code, data, new, hcode, hdata,
    hlabels, hmade.mono (Nat.le_succ _) (Nat.le_refl _), hrefs⟩

end Emits

/-! ## Computations -/

/-- What the code of a routine may refer to besides its own labels: its exit, the exits of the
surrounding loops, and the block of its temporaries. -/
structure Known (ext : Set String) (r : Routine) : Prop where
  name : symbol r.name = r.name
  exit : r.exit ∈ ext
  exits : ∀ l ∈ r.exits, symbol l ∈ ext
  block : ∀ label size, r.frame = .block label size → symbol label ∈ ext

namespace Known

variable {ext ext' : Set String} {placed : List String} {r r' : Routine}

/-- More may be known. -/
theorem mono (h : Known ext r) (hsub : ext ⊆ ext') : Known ext' r :=
  ⟨h.name, hsub h.exit, fun l hl => hsub (h.exits l hl), fun b n hb => hsub (h.block b n hb)⟩

/-- Building does not change what may be referred to. -/
theorem of_emits (h : Known ext r) (he : Emits ext placed r r') : Known ext r' where
  name := by rw [he.name, h.name]
  exit := by
    rw [Routine.exit, he.name]
    exact h.exit
  exits := by
    rw [he.exits]
    exact h.exits
  block label size hr' := by
    have hkind := he.kind
    rw [hr'] at hkind
    cases hr : r.frame with
    | stack f => rw [hr] at hkind; exact hkind.elim
    | bare => rw [hr] at hkind; exact hkind.elim
    | block label' size' =>
      rw [hr] at hkind
      cases hkind
      exact h.block _ _ hr

/-- The exit of a routine has no blanks. -/
theorem symbol_exit (h : Known ext r) : symbol r.exit = r.exit :=
  symbol_append h.name (by decide)

end Known

/-- Whatever a computation builds is emission that places the labels `placed`. -/
def Writes {α : Type} (ext : Set String) (placed : List String) (x : Gen α) : Prop :=
  ∀ r a r', Known ext r → x r = .ok a r' → Emits ext placed r r'

namespace Writes

variable {α β : Type} {ext : Set String} {placed placed' : List String} {x : Gen α}
  {f : α → Gen β}

/-- Giving a value emits nothing. -/
theorem pure (a : α) : Writes ext [] (Pure.pure a : Gen α) := by
  intro r b r' _ h
  obtain ⟨-, rfl⟩ := pure_ok.1 h
  exact .refl ext r

/-- A fault emits nothing. -/
theorem throw (e : Fault) : Writes ext placed (MonadExcept.throw e : Gen α) :=
  fun _ _ _ _ h => absurd h throw_ok

/-- An answer that may be a fault emits nothing. -/
theorem orFault (e : Except Fault α) : Writes ext [] (Codegen.orFault e) := by
  intro r a r' _ h
  obtain ⟨-, rfl⟩ := orFault_ok.1 h
  exact .refl ext r

/-- A computation after another one. -/
theorem bind (hx : Writes ext placed x) (hf : ∀ a, Writes ext placed' (f a)) :
    Writes ext (placed ++ placed') (x >>= f) := by
  intro r b r' hr h
  obtain ⟨a, r₁, hxr, hfr⟩ := bind_ok.1 h
  have hemits := hx r a r₁ hr hxr
  exact hemits.trans (hf a r₁ b r' (hr.of_emits hemits) hfr)

/-- A computation after one that places no label. -/
theorem seq (hx : Writes ext [] x) (hf : ∀ a, Writes ext placed (f a)) :
    Writes ext placed (x >>= f) := hx.bind hf

/-- A computation that places no label after another one. -/
theorem last (hx : Writes ext placed x) (hf : ∀ a, Writes ext [] (f a)) :
    Writes ext placed (x >>= f) := by
  have h := hx.bind hf
  rwa [List.append_nil] at h

/-- The order of the labels to be placed does not matter. -/
theorem perm (hx : Writes ext placed x) (h : placed.Perm placed') : Writes ext placed' x :=
  fun r a r' hr hxr => (hx r a r' hr hxr).perm h

/-- One of two computations. -/
theorem ite {c : Prop} [Decidable c] {y : Gen α} (hx : Writes ext placed x)
    (hy : Writes ext placed y) : Writes ext placed (if c then x else y) := by
  split
  · exact hx
  · exact hy

/-- What follows a reading of the routine. -/
theorem get {g : Routine → Gen β} (h : ∀ s, Writes ext placed (g s)) :
    Writes ext placed (MonadState.get >>= g) :=
  fun r b r' hr hg => h r r b r' hr (get_bind_ok.1 hg)

/-- A label is made, and placed on the way. -/
theorem newLabel {g : String → Gen β} {hint : String} (hhint : IsHint hint)
    (h : ∀ l, symbol l = l → Writes (insert l ext) (l :: placed) (g l)) :
    Writes ext placed (Codegen.newLabel hint >>= g) := by
  intro r b r' hr hg
  rw [newLabel_front] at hg
  have hsymbol : symbol (madeLabel r.name hint (r.labels + 1)) = madeLabel r.name hint (r.labels + 1) :=
    symbol_newLabel hr.name (symbol_eq_self.2 fun hmem => (hhint _ hmem).2 rfl) _
  have hknown : Known (insert (madeLabel r.name hint (r.labels + 1)) ext)
      (r.withLabels (r.labels + 1)) := Known.mono ⟨hr.name, hr.exit, hr.exits, hr.block⟩
    (Set.subset_insert _ _)
  exact .close hhint (h _ hsymbol _ b r' hknown hg)

/-- A label is made and not used. -/
theorem unusedLabel {g : String → Gen β} {hint : String} (h : ∀ l, Writes ext placed (g l)) :
    Writes ext placed (Codegen.newLabel hint >>= g) := by
  intro r b r' hr hg
  rw [newLabel_front] at hg
  have hknown : Known ext (r.withLabels (r.labels + 1)) := ⟨hr.name, hr.exit, hr.exits, hr.block⟩
  exact .skip (h _ _ b r' hknown hg)

/-! ### Steps -/

/-- A step that appends directives without labels to the code, and otherwise changes only what
labels do not depend on. -/
theorem of_plus (code : List Directive) (hlabels : labels code = [])
    (hrefs : ∀ l ∈ references code, l ∈ ext) (hreturns : ∀ d ∈ code, endsInterrupt d = false)
    (h : ∀ r a r', x r = .ok a r' → ∃ p d, r' = ((r.plus code).withPool p).withDepth d) :
    Writes ext [] x := by
  intro r a r' _ hx
  obtain ⟨p, d, rfl⟩ := h r a r' hx
  refine ⟨rfl, rfl, .refl _, rfl, Nat.le_refl _, id, fun d hd hends => ?_, code, [], [], by simp, by simp,
    ?_, .nil, ?_⟩
  · have hmem : d ∈ code ∨ d ∈ r.code.toList ++ r.data.toList := by
      simp only [Routine.withDepth_code, Routine.withPool_code, Routine.withDepth_data,
        Routine.withPool_data, Routine.plus_code, Routine.plus_data, List.mem_append] at hd ⊢
      tauto
    refine hmem.resolve_left fun hcode => ?_
    rw [hreturns d hcode] at hends
    cases hends
  · rw [List.append_nil, hlabels]
    exact .refl _
  · intro l hl
    rw [List.append_nil] at hl
    exact .inr (hrefs l hl)

/-- Taking a register. -/
theorem allocate : Writes ext [] Codegen.allocate := by
  refine of_plus [] rfl (by simp) (by simp) fun r q r' h => ?_
  obtain ⟨p, -, rfl⟩ := allocate_ok.1 h
  exact ⟨p, r.depth, by rw [Routine.plus_nil]; rfl⟩

/-- Giving a register back. -/
theorem release (q : Register) : Writes ext [] (Codegen.release q) := by
  refine of_plus [] rfl (by simp) (by simp) fun r u r' h => ?_
  obtain ⟨p, -, rfl⟩ := release_ok.1 h
  exact ⟨p, r.depth, by rw [Routine.plus_nil]; rfl⟩

/-- An instruction that ends no interrupt. -/
theorem emit (op : Opcode) (registers : List Register) (hop : (op == .rti) = false) :
    Writes ext [] (Codegen.emit op registers) := by
  have hreturns : endsInterrupt (ins op registers) = false := by
    simpa [endsInterrupt, ins, Assembly.Instruction.ofList] using hop
  refine of_plus [ins op registers] rfl (by simp) (by simpa using hreturns) fun r u r' h => ?_
  obtain ⟨-, rfl⟩ := emit_ok.1 h
  exact ⟨r.pool, r.depth, rfl⟩

/-- A word. -/
theorem loadWord (q : Register) (w : Word) : Writes ext [] (Codegen.loadWord q w) := by
  refine of_plus [.constant q (.immediate w)] rfl (by simp) (by simp [endsInterrupt]) fun r u r' h => ?_
  obtain rfl := loadWord_ok.1 h
  exact ⟨r.pool, r.depth, rfl⟩

/-- A count. -/
theorem loadCount (q : Register) (n : Int) : Writes ext [] (Codegen.loadCount q n) := by
  unfold Codegen.loadCount
  split
  · exact loadWord q _
  · exact throw _

/-- The address of a known label. -/
theorem loadAddress (q : Register) {l : String} (hl : symbol l ∈ ext) :
    Writes ext [] (Codegen.loadAddress q l) := by
  refine of_plus [.constant q (.reference (symbol l))] rfl (by simpa using hl)
    (by simp [endsInterrupt]) fun r u r' h => ?_
  obtain rfl := loadAddress_ok.1 h
  exact ⟨r.pool, r.depth, rfl⟩

/-- A label is placed. -/
theorem placeLabel (l : String) : Writes ext [l] (Codegen.placeLabel l) := by
  intro r u r' _ h
  obtain rfl := placeLabel_ok.1 h
  refine ⟨rfl, rfl, .refl _, rfl, Nat.le_refl _, id, fun d hd hends => ?_, [.label l], [], [], by simp,
    by simp, .refl _, .nil, by simp⟩
  have hmem : d = .label l ∨ d ∈ r.code.toList ++ r.data.toList := by
    simp only [Routine.plus_code, Routine.plus_data, List.mem_append, List.mem_singleton] at hd ⊢
    tauto
  refine hmem.resolve_left fun heq => ?_
  rw [heq] at hends
  cases hends

/-- Counting pushed words. -/
theorem moveDepth (n : Int) : Writes ext [] (Codegen.moveDepth n) := by
  refine of_plus [] rfl (by simp) (by simp) fun r u r' h => ?_
  obtain rfl := moveDepth_ok.1 h
  exact ⟨r.pool, addExtent r.depth n, by rw [Routine.plus_nil]; rfl⟩

/-- How many registers are in use. -/
theorem outstanding : Writes ext [] Codegen.outstanding := .get fun _ => .pure _

/-- A push. -/
theorem push (q : Register) : Writes ext [] (Codegen.push q) :=
  .seq (.seq (.emit _ _ rfl) fun _ => .emit _ _ rfl) fun _ => .moveDepth _

/-- A pop. -/
theorem pop (q : Register) : Writes ext [] (Codegen.pop q) :=
  .seq (.seq (.emit _ _ rfl) fun _ => .emit _ _ rfl) fun _ => .moveDepth _

/-- A computation for each item of a list. -/
theorem forM {g : α → Gen PUnit} (h : ∀ a, Writes ext [] (g a)) (items : List α) :
    Writes ext [] (items.forM g) := by
  induction items with
  | nil => exact pure _
  | cons a items ih => exact .seq (h a) fun _ => ih

/-- A jump to a known label. -/
theorem jumpBy {l : String} (hl : symbol l ∈ ext) {jump : Register → Gen Unit}
    (h : ∀ t, Writes ext [] (jump t)) : Writes ext [] (Codegen.jumpBy l jump) :=
  .seq .allocate fun t => .seq (.loadAddress t hl) fun _ => .seq (h t) fun _ => .release t

/-- A jump refers to a known label. -/
theorem jump {l : String} (hl : symbol l ∈ ext) : Writes ext [] (Codegen.jump l) :=
  .jumpBy hl fun _ => .emit _ _ rfl

/-- A jump on zero refers to a known label. -/
theorem jumpIfZero (q : Register) {l : String} (hl : symbol l ∈ ext) :
    Writes ext [] (Codegen.jumpIfZero q l) := .jumpBy hl fun _ => .emit _ _ rfl

/-- A jump on anything but zero refers to a known label. -/
theorem jumpIfNotZero (q : Register) {l : String} (hl : symbol l ∈ ext) :
    Writes ext [] (Codegen.jumpIfNotZero q l) := .jumpBy hl fun _ => .emit _ _ rfl

/-- An operation on a register and a count. -/
theorem adjust (op : Opcode) (q : Register) (n : Int) (hop : (op == .rti) = false) :
    Writes ext [] (Codegen.adjust op q n) := by
  refine .ite (.pure _) (.ite (.emit _ _ hop) ?_)
  exact .seq .allocate fun t => .seq (.loadCount t n) fun _ => .seq (.emit _ _ hop) fun _ => .release t

/-- The stack grows. -/
theorem reserve (n : Int) : Writes ext [] (Codegen.reserve n) :=
  .seq (.adjust _ _ _ rfl) fun _ => .moveDepth n

/-- The stack shrinks. -/
theorem drop (n : Int) : Writes ext [] (Codegen.drop n) :=
  .seq (.adjust _ _ _ rfl) fun _ => .seq (.moveDepth _) fun _ => .get fun _ =>
    .ite (.throw _) (.pure _)

/-- Leaving the innermost loop. -/
theorem leaveLoop : Writes ext [] Codegen.leaveLoop := by
  intro r u r' hr h
  simp only [Codegen.leaveLoop, get_bind_ok] at h
  cases hexits : r.exits with
  | nil =>
    rw [hexits] at h
    exact absurd h throw_ok
  | cons l rest =>
    rw [hexits] at h
    exact jump (hr.exits l (by simp [hexits])) r u r' hr h

/-- The body of a loop, for which the loop's end is an exit. -/
theorem loop {l : String} (hl : symbol l ∈ ext) {body : Gen Unit} {k : Unit → Gen β}
    (hbody : Writes ext [] body) (hk : ∀ u, Writes ext placed (k u)) :
    Writes ext placed
      (Codegen.pushExit l >>= fun _ => body >>= fun _ => Codegen.popExit >>= k) := by
  intro r b r' hr h
  simp only [Codegen.pushExit, bind_ok, modify_ok] at h
  obtain ⟨_, _, rfl, _, r₁, hrun, _, r₂, hpop, hlast⟩ := h
  have hknown : Known ext { r with exits := l :: r.exits } := ⟨hr.name, hr.exit, by
    simpa using ⟨hl, hr.exits⟩, hr.block⟩
  have hemits := hbody _ _ _ hknown hrun
  have hexits : r₁.exits = l :: r.exits := hemits.exits
  simp only [Codegen.popExit, get_bind_ok, hexits, set_ok] at hpop
  obtain rfl := hpop
  have hbody' : Emits ext [] r { r₁ with exits := r.exits } :=
    ⟨hemits.name, rfl, hemits.kind, hemits.handler, hemits.labels, hemits.calls, hemits.returns,
      hemits.added⟩
  exact hbody'.trans (hk () _ b r' (hr.of_emits hbody') hlast)

/-- A text in the data of a routine. -/
theorem placeText {g : String → Gen β} (text : String)
    (h : ∀ l, symbol l = l → Writes (insert l ext) placed (g l)) :
    Writes ext placed (Codegen.placeText text >>= g) := by
  have hassoc : (Codegen.placeText text >>= g) = (Codegen.newLabel "text" >>= fun l =>
      (modify fun s : Routine =>
        { s with data := (s.data.push (.label l)).push (.data [.text text]) }) >>= fun _ => g l) := by
    simp only [Codegen.placeText, bind_assoc, pure_bind]
  rw [hassoc]
  refine .newLabel (by decide) fun l hl => ?_
  have hdata : Writes (insert l ext) [l] (modify fun s : Routine =>
      { s with data := (s.data.push (.label l)).push (.data [.text text]) }) := by
    intro r u r' _ hr
    obtain rfl := modify_ok.1 hr
    refine ⟨rfl, rfl, .refl _, rfl, Nat.le_refl _, id, fun d hd hends => ?_, [],
      [.label l, .data [.text text]], [], by simp, by simp, .refl _, .nil, ?_⟩
    · have hmem : (d = .label l ∨ d = .data [.text text]) ∨ d ∈ r.code.toList ++ r.data.toList := by
        simp only [Array.toList_push, List.mem_append, List.mem_singleton] at hd ⊢
        tauto
      refine hmem.resolve_left fun heq => ?_
      obtain rfl | rfl := heq <;> cases hends
    simp [references, Assembly.Directive.references, Assembly.Value.references]
  exact hdata.bind fun _ => h l hl

/-- A statement emits what its body does. -/
theorem statement {body : Gen Unit} (h : Writes ext placed body) :
    Writes ext placed (Codegen.statement body) := by
  refine .seq .outstanding fun _ => .get fun _ => .last h fun _ => .get fun _ => ?_
  exact .ite (.throw _) (.ite (.throw _) (.pure _))

end Writes

end Qll.Codegen
