import Qll.Proofs.Types.Vocabulary

/-!
# The form of mangled texts

The mangled text of an admitted type is built from accepted names by a handful of forms. An inductive
relation lists them; it is all that the proofs about labels know of mangling.
-/

namespace Qll.Types

open Qll.Computation

/-- The forms of mangled texts. -/
inductive Mangled (accepts : String → Prop) : String → Prop
  | name {q : String} (h : IsQualified accepts q) : Mangled accepts q
  /-- An unbound variable; the number tells variables of one name apart. -/
  | var {n : String} (h : n = "" ∨ accepts n) (k : Nat) : Mangled accepts (n ++ "#" ++ Nat.repr k)
  | pointer {e : String} (he : Mangled accepts e) : Mangled accepts ("*" ++ e)
  | slice {e : String} (he : Mangled accepts e) : Mangled accepts ("[" ++ e ++ "]")
  | array {e : String} (he : Mangled accepts e) (length : Int) :
      Mangled accepts ("[" ++ e ++ "; " ++ Store.lengthText length ++ "]")
  | struct {members : List (String × String)} (hnames : ∀ m ∈ members, accepts m.1)
      (htypes : ∀ m ∈ members, Mangled accepts m.2) :
      Mangled accepts ("struct \x7b" ++
        String.join (members.map fun m => " " ++ m.1 ++ ": " ++ m.2 ++ ";") ++ " \x7d")
  | function {as : List String} {r : String} (has : ∀ a ∈ as, Mangled accepts a)
      (hr : Mangled accepts r) : Mangled accepts ("(" ++ Text.join ", " as ++ ") => " ++ r)
  | apply {head : String} {as : List String} (hhead : Mangled accepts head)
      (has : ∀ a ∈ as, Mangled accepts a) : Mangled accepts (head ++ Store.bracket as)
  | dot {b m : String} (hb : Mangled accepts b) (hm : accepts m) : Mangled accepts (b ++ "." ++ m)
  | template {as : List String} {b : String} (has : ∀ a ∈ as, Mangled accepts a)
      (hb : Mangled accepts b) : Mangled accepts (Store.bracket as ++ b)

/-- What a list of computations gives, each of them gave. -/
theorem mem_of_mapM {α β : Type} {f : α → Except Fault β} {l : List α} {bs : List β}
    (h : l.mapM f = .ok bs) {b : β} (hb : b ∈ bs) : ∃ a ∈ l, f a = .ok b := by
  induction l generalizing bs with
  | nil =>
    rw [List.mapM_nil, except_pure_ok] at h
    subst h
    cases hb
  | cons a l ih =>
    simp only [List.mapM_cons, except_bind_ok, except_pure_ok] at h
    obtain ⟨c, hc, cs, hcs, rfl⟩ := h
    obtain rfl | hb := List.mem_cons.1 hb
    · exact ⟨a, by simp, hc⟩
    · obtain ⟨a', ha', hrun⟩ := ih hcs hb
      exact ⟨a', by simp [ha'], hrun⟩

/-- Items of one form are the images of a list. -/
theorem exists_map_eq {α β : Type} {g : α → β} {p : α → Prop} {bs : List β}
    (h : ∀ b ∈ bs, ∃ a, p a ∧ g a = b) : ∃ as : List α, as.map g = bs ∧ ∀ a ∈ as, p a := by
  induction bs with
  | nil => exact ⟨[], rfl, by simp⟩
  | cons b bs ih =>
    obtain ⟨a, ha, rfl⟩ := h b (by simp)
    obtain ⟨as, rfl, has⟩ := ih fun c hc => h c (by simp [hc])
    exact ⟨a :: as, rfl, by simpa using ⟨ha, has⟩⟩

namespace Vocabulary

variable (V : Vocabulary)

/-- All of some names are accepted. -/
def AcceptsAll (names : List String) : Prop := ∀ n ∈ names, V.accepts n

variable {V}

/-- No names are always accepted. -/
@[simp] theorem acceptsAll_nil : V.AcceptsAll [] := by simp [AcceptsAll]

/-- Names are accepted if the first one is, and the others are. -/
@[simp] theorem acceptsAll_cons {n : String} {names : List String} :
    V.AcceptsAll (n :: names) ↔ V.accepts n ∧ V.AcceptsAll names := by simp [AcceptsAll]

/-- Two lists of names are accepted if each of them is. -/
@[simp] theorem acceptsAll_append {names more : List String} :
    V.AcceptsAll (names ++ more) ↔ V.AcceptsAll names ∧ V.AcceptsAll more := by
  simp [AcceptsAll, or_imp, forall_and]

variable (V)

/-- The name of a declaration, or of an instance of a template function. -/
def Names (q : String) : Prop :=
  IsQualified V.accepts q ∨ ∃ p texts, IsQualified V.accepts p ∧
    (∀ x ∈ texts, Mangled V.accepts x) ∧ q = p ++ Store.bracket texts

/-- The key of an instance. -/
def Keys (key : String) : Prop :=
  ∃ texts, (∀ x ∈ texts, Mangled V.accepts x) ∧ key = Store.bracket texts

end Vocabulary

namespace Vocabulary.Fits

variable {V : Vocabulary} {s : Store}

/-- The mangled text of a name. -/
theorem mangled_nameText (hs : V.Fits s) {inner : Ty → Except Fault String}
    (hinner : ∀ t text, V.Admits t → inner t = .ok text → Mangled V.accepts text) {id : Nat}
    {written text : String} (hname : V.resolved id ∨ IsQualified V.accepts written)
    (h : s.nameText true inner id written = .ok text) : Mangled V.accepts text := by
  unfold Store.nameText at h
  rw [if_pos rfl] at h
  split at h
  · next hnone =>
    cases h
    exact .name (hs.text_of_unresolved hname hnone)
  · exact hinner _ _ admits_var h
  · next b _ hb =>
    cases h
    exact .name (hs.binding hb).qualified

/-- The text of an admitted type has one of the forms. -/
theorem mangled_renderWithin (hs : V.Fits s) {n : Nat} {t : Ty} {text : String} (ht : V.Admits t)
    (h : s.renderWithin true n t = .ok text) : Mangled V.accepts text := by
  induction n generalizing t text with
  | zero => cases h
  | succ n ih =>
    have hinner (t : Ty) (text : String) (ht : V.Admits t)
        (h : s.renderWithin true n t = .ok text) : Mangled V.accepts text := ih ht h
    have hlist {ts : List Ty} {texts : List String} (hts : ∀ t ∈ ts, V.Admits t)
        (h : ts.mapM (s.renderWithin true n) = .ok texts) : ∀ x ∈ texts, Mangled V.accepts x := by
      intro x hx
      obtain ⟨t, ht, hrun⟩ := mem_of_mapM h hx
      exact hinner t x (hts t ht) hrun
    unfold Store.renderWithin at h
    cases t with
    | builtin kind l =>
      obtain rfl := except_pure_ok.1 h
      exact .name (.name (V.builtin kind))
    | name id written l => exact hs.mangled_nameText hinner ht h
    | pointer e l =>
      simp only [except_bind_ok, except_pure_ok] at h
      obtain ⟨x, hx, rfl⟩ := h
      exact .pointer (hinner e x ht hx)
    | slice e l =>
      simp only [except_bind_ok, except_pure_ok] at h
      obtain ⟨x, hx, rfl⟩ := h
      exact .slice (hinner e x ht hx)
    | array e k l =>
      simp only [except_bind_ok, except_pure_ok] at h
      obtain ⟨x, hx, rfl⟩ := h
      exact .array (hinner e x ht hx) k
    | struct ms l =>
      simp only [except_bind_ok, except_pure_ok] at h
      obtain ⟨parts, hparts, rfl⟩ := h
      obtain ⟨members, rfl, hmembers⟩ := exists_map_eq
        (g := fun m : String × String => " " ++ m.1 ++ ": " ++ m.2 ++ ";")
        (p := fun m => V.accepts m.1 ∧ Mangled V.accepts m.2) fun part (hpart : part ∈ parts) => by
          obtain ⟨m, hm, hrun⟩ := mem_of_mapM hparts hpart
          simp only [except_bind_ok, except_pure_ok] at hrun
          obtain ⟨x, hx, rfl⟩ := hrun
          obtain ⟨hname, htype⟩ := admits_struct.1 ht m hm
          exact ⟨(m.name, x), ⟨hname, hinner _ _ htype hx⟩, rfl⟩
      exact .struct (fun m hm => (hmembers m hm).1) fun m hm => (hmembers m hm).2
    | function as r l =>
      simp only [except_bind_ok, except_pure_ok] at h
      obtain ⟨parts, hparts, x, hx, rfl⟩ := h
      rw [admits_function] at ht
      exact .function (hlist ht.1 hparts) (hinner r x ht.2 hx)
    | apply id head written as l =>
      simp only [except_bind_ok, except_pure_ok] at h
      obtain ⟨name, hname, parts, hparts, rfl⟩ := h
      rw [admits_apply] at ht
      exact .apply (hs.mangled_nameText hinner ht.1 hname) (hlist ht.2 hparts)
    | dot b m l =>
      simp only [except_bind_ok, except_pure_ok] at h
      obtain ⟨x, hx, rfl⟩ := h
      exact .dot (hinner b x ht.1 hx) ht.2
    | var v =>
      simp only at h
      split at h
      · next u hu => exact hinner u text (hs.bound hu) h
      · obtain rfl := except_pure_ok.1 h
        refine .var ?_ (v + 1)
        cases hv : s.vars[v]? with
        | none => exact .inl (by simp [Store.varName, hv])
        | some e => simpa [Store.varName, hv] using hs.varName hv
    | template id =>
      simp only at h
      split at h
      · cases h
      · next e he =>
        simp only [except_bind_ok, except_pure_ok] at h
        obtain ⟨parts, hparts, x, hx, rfl⟩ := h
        refine .template (fun part hpart => ?_) (hinner _ x (hs.body ht he) hx)
        obtain ⟨v, -, hrun⟩ := mem_of_mapM hparts hpart
        exact hinner (.var v) part admits_var hrun

/-- The key of some admitted types. -/
theorem mangled_key (hs : V.Fits s) {ts : List Ty} (hts : ∀ t ∈ ts, V.Admits t) {key : String}
    (h : s.key ts = .ok key) : V.Keys key := by
  simp only [Store.key, except_bind_ok, except_pure_ok] at h
  obtain ⟨texts, htexts, rfl⟩ := h
  refine ⟨texts, fun x hx => ?_, rfl⟩
  obtain ⟨t, ht, hrun⟩ := mem_of_mapM htexts hx
  exact hs.mangled_renderWithin (hts t ht) hrun

end Vocabulary.Fits

end Qll.Types
