import Qll.Proofs.Types.Bindings
import Qll.Proofs.Types.Spacing

/-!
# Constructor trees

The constructor tree of a type is what is left when variables are followed and names are replaced by
what they are called: two types with one tree are one type. The mangled text of a type is the text of
its tree, and the text can be read back in one way only. A prefix star and the result of a function
reach as far to the right as they can, and members are only projected out of types that have no such
prefix; every other form ends with a sign of its own.
-/

namespace Qll.Types

open Qll.Computation

/-- A type without variables. -/
inductive Tree
  | builtin (kind : Builtin)
  | name (qualified : String)
  | pointer (element : Tree)
  | slice (element : Tree)
  | array (element : Tree) (length : Int)
  | struct (members : List (String × Tree))
  | function (arguments : List Tree) (result : Tree)
  | apply (head : String) (arguments : List Tree)
  | dot (base : Tree) (member : String)

/-- The constructor tree of a name, where `inner` gives that of a variable. A name of a builtin type
counts as the builtin. -/
def Store.nameTree (s : Store) (inner : Ty → Option Tree) (id : Nat) : Option Tree :=
  match s.binding? id with
  | none => none
  | some { type := .var v, .. } => inner (.var v)
  | some { qualified, type := .builtin kind _, .. } =>
    if qualified = kind.name then some (.builtin kind) else some (.name qualified)
  | some b => some (.name b.qualified)

/-- The constructor tree of a type, found in a number of steps. Names that are not resolved, unbound
variables and templates have none. -/
def Store.treeWithin (s : Store) : Nat → Ty → Option Tree
  | 0, _ => none
  | n + 1, t => do
    let inner := s.treeWithin n
    match t with
    | .builtin kind _ => return .builtin kind
    | .name id _ _ => s.nameTree inner id
    | .pointer e _ => return .pointer (← inner e)
    | .slice e _ => return .slice (← inner e)
    | .array e length _ => return .array (← inner e) length
    | .struct members _ => return .struct (← members.mapM fun m => return (m.name, ← inner m.type))
    | .function arguments result _ => return .function (← arguments.mapM inner) (← inner result)
    | .apply _ head _ arguments _ => return .apply (← s.binding? head).qualified (← arguments.mapM inner)
    | .dot base member _ => return .dot (← inner base) member
    | .var v => inner (← s.bound? v)
    | .template _ => none

/-- The constructor tree of a type. -/
def Store.tree (s : Store) (t : Ty) : Option Tree := s.treeWithin s.limit t

/-! ## Texts of trees -/

/-- What opens a struct, behind the word for one. -/
def brace : List Char := [' ', '\x7b']

/-- What closes a struct. -/
def closingBrace : List Char := [' ', '\x7d']

/-- What stands in front of the result of a function. -/
def arrow : List Char := [' ', '=', '>', ' ']

/-- Texts with commas in between, and a sign behind the last. -/
def listed (close : Char) : List (List Char) → List Char
  | [] => [close]
  | [x] => x ++ [close]
  | x :: rest => x ++ ',' :: ' ' :: listed close rest

namespace Tree

mutual

/-- The text of a tree. -/
def text : Tree → List Char
  | builtin kind => kind.name.toList
  | name q => q.toList
  | pointer e => '*' :: e.text
  | slice e => '[' :: (e.text ++ [']'])
  | array e n => '[' :: (e.text ++ ';' :: ' ' :: ((Store.lengthText n).toList ++ [']']))
  | struct ms => "struct".toList ++ (brace ++ (memberTexts ms ++ closingBrace))
  | function as r => '(' :: (listed ')' (texts as) ++ (arrow ++ r.text))
  | apply head as => head.toList ++ '<' :: listed '>' (texts as)
  | dot b m => b.text ++ '.' :: m.toList

/-- The texts of some trees. -/
def texts : List Tree → List (List Char)
  | [] => []
  | t :: rest => t.text :: texts rest

/-- The texts of some members. -/
def memberTexts : List (String × Tree) → List Char
  | [] => []
  | (m, t) :: rest => ' ' :: (m.toList ++ ':' :: ' ' :: (t.text ++ ';' :: memberTexts rest))

end

/-! ### Texts form by form

Each of these holds by evaluation, so that no proof unfolds the three functions at once. -/

@[simp] theorem text_builtin (kind : Builtin) : (builtin kind).text = kind.name.toList := rfl
@[simp] theorem text_name (q : String) : (name q).text = q.toList := rfl
@[simp] theorem text_pointer (e : Tree) : (pointer e).text = '*' :: e.text := rfl
@[simp] theorem text_slice (e : Tree) : (slice e).text = '[' :: (e.text ++ [']']) := rfl
@[simp] theorem text_array (e : Tree) (n : Int) :
    (array e n).text = '[' :: (e.text ++ ';' :: ' ' :: ((Store.lengthText n).toList ++ [']'])) := rfl
@[simp] theorem text_struct (ms : List (String × Tree)) :
    (struct ms).text = "struct".toList ++ (brace ++ (memberTexts ms ++ closingBrace)) := rfl
@[simp] theorem text_function (as : List Tree) (r : Tree) :
    (function as r).text = '(' :: (listed ')' (texts as) ++ (arrow ++ r.text)) := rfl
@[simp] theorem text_apply (head : String) (as : List Tree) :
    (apply head as).text = head.toList ++ '<' :: listed '>' (texts as) := rfl
@[simp] theorem text_dot (b : Tree) (m : String) : (dot b m).text = b.text ++ '.' :: m.toList := rfl

@[simp] theorem texts_nil : texts [] = [] := rfl
@[simp] theorem texts_cons (t : Tree) (ts : List Tree) : texts (t :: ts) = t.text :: texts ts := rfl

@[simp] theorem memberTexts_nil : memberTexts [] = [] := rfl
@[simp] theorem memberTexts_cons (m : String) (t : Tree) (ms : List (String × Tree)) :
    memberTexts ((m, t) :: ms) = ' ' :: (m.toList ++ ':' :: ' ' :: (t.text ++ ';' :: memberTexts ms)) := rfl

/-- Only an empty list has no texts. -/
theorem texts_eq_nil {ts : List Tree} (h : texts ts = []) : ts = [] := by
  cases ts with
  | nil => rfl
  | cons => cases h

/-- The first signs of a tree that projects members, up to the first that no name has, and the signs
behind them. -/
def word? : Tree → Option (String × List Char)
  | builtin kind => some (kind.name, [])
  | name q => some (q, [])
  | struct ms => some ("struct", brace ++ (memberTexts ms ++ closingBrace))
  | apply head as => some (head, '<' :: listed '>' (texts as))
  | _ => none

/-- Members are projected out of a tree. -/
def Projects : Tree → Prop
  | pointer _ | function .. => False
  | _ => True

/-- The names in a tree are plain, those of declarations are no builtin names, and members are projected
where they can be. -/
inductive Legal : Tree → Prop
  | builtin {kind} : Legal (.builtin kind)
  | name {q} (hq : IsQualified IsPlain q) (hkind : ∀ kind : Builtin, q ≠ kind.name) : Legal (.name q)
  | pointer {e} (h : Legal e) : Legal (.pointer e)
  | slice {e} (h : Legal e) : Legal (.slice e)
  | array {e n} (h : Legal e) : Legal (.array e n)
  | struct {ms} (hnames : ∀ m ∈ ms, IsPlain m.1) (h : ∀ m ∈ ms, Legal m.2) : Legal (.struct ms)
  | function {as r} (has : ∀ a ∈ as, Legal a) (hr : Legal r) : Legal (.function as r)
  | apply {head as} (hhead : IsQualified IsPlain head) (has : ∀ a ∈ as, Legal a) : Legal (.apply head as)
  | dot {b m} (hb : Legal b) (hprojects : b.Projects) (hm : IsPlain m) : Legal (.dot b m)

end Tree

/-! ## Signs -/

/-- A sign of a qualified name. -/
def IsNameChar (c : Char) : Prop := IsWordChar c ∨ c = ':'

instance (c : Char) : Decidable (IsNameChar c) := inferInstanceAs (Decidable (IsWordChar c ∨ c = ':'))

/-- What can stand behind a type inside another one: nothing, or a sign that closes or separates. -/
def Stops (k : List Char) : Prop := ∀ c ∈ k.head?, c ∈ [']', ';', ',', ')', '>']

/-- A text is cut in one way where signs of one sort end. -/
theorem append_inj_of_head {P : Char → Prop} {l l' k k' : List Char} (hl : ∀ c ∈ l, P c)
    (hl' : ∀ c ∈ l', P c) (hk : ∀ c ∈ k.head?, ¬ P c) (hk' : ∀ c ∈ k'.head?, ¬ P c)
    (h : l ++ k = l' ++ k') : l = l' ∧ k = k' := by
  induction l generalizing l' with
  | nil =>
    cases l' with
    | nil => exact ⟨rfl, h⟩
    | cons c l' =>
      rw [List.nil_append] at h
      exact absurd (hl' c (by simp)) (hk c (by simp [h]))
  | cons c l ih =>
    cases l' with
    | nil =>
      rw [List.nil_append] at h
      exact absurd (hl c (by simp)) (hk' c (by simp [← h]))
    | cons c' l' =>
      obtain ⟨rfl, hrest⟩ : c = c' ∧ l ++ k = l' ++ k' := by simpa using h
      obtain ⟨rfl, rfl⟩ := ih (List.forall_mem_cons.1 hl).2 (List.forall_mem_cons.1 hl').2 hrest
      exact ⟨rfl, rfl⟩

/-- A plain name is not empty. -/
theorem IsPlain.ne_nil {n : String} (h : IsPlain n) : n.toList ≠ [] := by simpa using h.1

/-- A qualified name has signs of names only, and at least one. -/
theorem IsQualified.chars {q : String} (h : IsQualified IsPlain q) :
    q.toList ≠ [] ∧ ∀ c ∈ q.toList, IsNameChar c := by
  induction h with
  | name h => exact ⟨h.ne_nil, fun c hc => .inl (h.2 c hc)⟩
  | @nested q n _ h ih =>
    have hlist : (q ++ "::" ++ n).toList = q.toList ++ [':', ':'] ++ n.toList := by simp
    rw [hlist]
    refine ⟨by simp [ih.1], fun c hc => ?_⟩
    simp only [List.mem_append, List.mem_cons, List.not_mem_nil, or_false, or_self] at hc
    obtain (hc | rfl) | hc := hc
    · exact ih.2 c hc
    · exact .inr rfl
    · exact .inl (h.2 c hc)

/-- The names of builtin types are plain. -/
theorem isPlain_builtin (kind : Builtin) : IsPlain kind.name := by cases kind <;> decide

/-- Builtin types with one name are one. -/
theorem Builtin.name_inj {kind kind' : Builtin} (h : kind.name = kind'.name) : kind = kind' := by
  cases kind <;> cases kind' <;> simp_all [Builtin.name]

namespace Tree

/-! ## Words -/

/-- The first signs of such a tree are those of a name. -/
theorem text_of_word {t : Tree} {w : String} {tail : List Char} (h : t.word? = some (w, tail)) :
    t.text = w.toList ++ tail := by
  cases t <;> simp only [word?, Option.some.injEq, Prod.mk.injEq, reduceCtorEq] at h <;>
    obtain ⟨rfl, rfl⟩ := h
  · rw [text_builtin, List.append_nil]
  · rw [text_name, List.append_nil]
  · rw [text_struct]
  · rw [text_apply]

/-- The first signs of a legal tree that projects members are those of a name. -/
theorem word_chars {t : Tree} (ht : t.Legal) {w : String} {tail : List Char}
    (h : t.word? = some (w, tail)) : w.toList ≠ [] ∧ ∀ c ∈ w.toList, IsNameChar c := by
  cases ht with
  | @builtin kind =>
    cases h
    exact (IsQualified.name (isPlain_builtin kind)).chars
  | name hq =>
    cases h
    exact hq.chars
  | struct =>
    cases h
    exact ⟨by decide, by decide⟩
  | apply hhead =>
    cases h
    exact hhead.chars
  | _ => cases h

/-- No text begins with a sign that closes or separates. -/
theorem text_head {t : Tree} (ht : t.Legal) :
    ∃ c rest, t.text = c :: rest ∧ (IsNameChar c ∨ c ∈ ['*', '[', '(']) := by
  have hword {t : Tree} (ht : t.Legal) {w : String} {tail : List Char} (h : t.word? = some (w, tail)) :
      ∃ c rest, t.text = c :: rest ∧ (IsNameChar c ∨ c ∈ ['*', '[', '(']) := by
    obtain ⟨hne, hchars⟩ := word_chars ht h
    obtain ⟨c, rest, hw⟩ := List.exists_cons_of_ne_nil hne
    exact ⟨c, rest ++ tail, by rw [text_of_word h, hw, List.cons_append], .inl (hchars c (by simp [hw]))⟩
  induction ht with
  | pointer | slice | array | function => exact ⟨_, _, rfl, .inr (by decide)⟩
  | @dot b m _ _ _ ih =>
    obtain ⟨c, rest, h, hc⟩ := ih
    exact ⟨c, rest ++ '.' :: m.toList, by rw [text_dot, h, List.cons_append], hc⟩
  | builtin => exact hword .builtin rfl
  | name hq hkind => exact hword (.name hq hkind) rfl
  | struct hnames h => exact hword (.struct hnames h) rfl
  | apply hhead has => exact hword (.apply hhead has) rfl

/-! ## Reading -/

/-- A tree is read off its text, whatever follows it. -/
def Readable (t : Tree) : Prop := ∀ u : Tree, u.Legal → ∀ k k', Stops k → Stops k' →
  t.text ++ k = u.text ++ k' → t = u ∧ k = k'

/-- A sign that closes or separates may stand behind a type. -/
theorem stops_cons {c : Char} (hc : c ∈ [']', ';', ',', ')', '>']) (k : List Char) : Stops (c :: k) := by
  simpa [Stops] using hc

/-- A sign that closes or separates begins no text. -/
theorem text_ne_of_stops {t : Tree} (ht : t.Legal) {c : Char} (hc : c ∈ [']', ';', ',', ')', '>'])
    {k k' : List Char} : c :: k ≠ t.text ++ k' := by
  obtain ⟨c', rest, h, hc'⟩ := text_head ht
  intro heq
  obtain ⟨rfl, -⟩ : c = c' ∧ k = rest ++ k' := by simpa [h] using heq
  revert hc hc'
  simp only [List.mem_cons, List.not_mem_nil, or_false]
  rintro (rfl | rfl | rfl | rfl | rfl) <;> decide

/-- What stands behind the first of some texts. -/
theorem listed_cons (close : Char) (x : List Char) (rest : List (List Char)) (k : List Char) :
    ∃ c tail, listed close (x :: rest) ++ k = x ++ c :: tail ∧
      (rest = [] ∧ c = close ∧ tail = k ∨
        rest ≠ [] ∧ c = ',' ∧ tail = ' ' :: (listed close rest ++ k)) := by
  cases rest with
  | nil => exact ⟨close, k, by simp [listed], .inl ⟨rfl, rfl, rfl⟩⟩
  | cons y rest => exact ⟨',', _, by simp [listed], .inr ⟨by simp, rfl, rfl⟩⟩

/-- Some trees are read off the list of their texts. -/
theorem listed_inj {close : Char} (hclose : close ∈ [')', '>']) {ts us : List Tree}
    (hts : ∀ t ∈ ts, Readable t ∧ t.Legal) (hus : ∀ u ∈ us, u.Legal) {k k' : List Char}
    (h : listed close (texts ts) ++ k = listed close (texts us) ++ k') : ts = us ∧ k = k' := by
  have hstop : close ∈ [']', ';', ',', ')', '>'] := by
    simp only [List.mem_cons, List.not_mem_nil, or_false] at hclose ⊢
    obtain rfl | rfl := hclose <;> decide
  have hcomma : close ≠ ',' := by
    rintro rfl
    revert hclose
    decide
  induction ts generalizing us with
  | nil =>
    cases us with
    | nil => exact ⟨rfl, by simpa [listed] using h⟩
    | cons u us =>
      obtain ⟨c, tail, htail, -⟩ := listed_cons close u.text (texts us) k'
      rw [texts_nil, texts_cons, htail] at h
      exact absurd h (text_ne_of_stops (hus u (by simp)) hstop)
  | cons t ts ih =>
    obtain ⟨c, tail, htail, hrest⟩ := listed_cons close t.text (texts ts) k
    cases us with
    | nil =>
      rw [texts_cons, texts_nil, htail] at h
      exact absurd h.symm (text_ne_of_stops (hts t (by simp)).2 hstop)
    | cons u us =>
      obtain ⟨c', tail', htail', hrest'⟩ := listed_cons close u.text (texts us) k'
      rw [texts_cons, texts_cons, htail, htail'] at h
      obtain ⟨rfl, heq⟩ := (hts t (by simp)).1 u (hus u (by simp)) _ _
        (stops_cons (by obtain ⟨-, rfl, -⟩ | ⟨-, rfl, -⟩ := hrest <;> simp [hstop]) _)
        (stops_cons (by obtain ⟨-, rfl, -⟩ | ⟨-, rfl, -⟩ := hrest' <;> simp [hstop]) _) h
      obtain ⟨rfl, htails⟩ := List.cons.inj heq
      obtain ⟨hnil, rfl, rfl⟩ | ⟨-, rfl, rfl⟩ := hrest
      · obtain ⟨hnil', -, rfl⟩ | ⟨-, hc, -⟩ := hrest'
        · rw [texts_eq_nil hnil, texts_eq_nil hnil']
          exact ⟨rfl, htails⟩
        · exact absurd hc hcomma
      · obtain ⟨-, hc, -⟩ | ⟨-, -, rfl⟩ := hrest'
        · exact absurd hc.symm hcomma
        · obtain ⟨rfl, rfl⟩ := ih (fun t ht => hts t (by simp [ht])) (fun u hu => hus u (by simp [hu]))
            (List.cons.inj htails).2
          exact ⟨rfl, rfl⟩

/-- Signs that structure a text are in no name. -/
theorem not_isNameChar_of_mem {c : Char} (hc : c ∈ [' ', '\x7d', '.', '<', ']', ';', ',', ')', '>']) :
    ¬ IsNameChar c := by
  revert hc
  simp only [List.mem_cons, List.not_mem_nil, or_false]
  rintro (rfl | rfl | rfl | rfl | rfl | rfl | rfl | rfl | rfl) <;> decide

/-- A sign among some that no name has. -/
theorem not_isNameChar_of_subset {c : Char} {signs : List Char} (hc : c ∈ signs)
    (h : signs ⊆ [' ', '\x7d', '.', '<', ']', ';', ',', ')', '>']) : ¬ IsNameChar c :=
  not_isNameChar_of_mem (h hc)

/-- Some members are read off their texts. -/
theorem memberTexts_inj {ms ns : List (String × Tree)}
    (hms : ∀ m ∈ ms, IsPlain m.1 ∧ Readable m.2) (hns : ∀ n ∈ ns, IsPlain n.1 ∧ n.2.Legal)
    {k k' : List Char} (h : memberTexts ms ++ (closingBrace ++ k) = memberTexts ns ++ (closingBrace ++ k')) :
    ms = ns ∧ k = k' := by
  have hend {n : String} (hn : IsPlain n) (x k : List Char) :
      ' ' :: (n.toList ++ x) ≠ closingBrace ++ k := by
    obtain ⟨c, rest, hlist⟩ := List.exists_cons_of_ne_nil hn.ne_nil
    intro heq
    obtain ⟨rfl, -⟩ : c = '\x7d' ∧ _ := by simpa [hlist, closingBrace] using heq
    exact not_isNameChar_of_mem (c := '\x7d') (by simp) (.inl (hn.2 _ (by simp [hlist])))
  induction ms generalizing ns with
  | nil =>
    cases ns with
    | nil => exact ⟨rfl, by simpa [closingBrace] using h⟩
    | cons n ns =>
      rw [memberTexts_nil, memberTexts_cons, List.nil_append, List.cons_append, List.append_assoc] at h
      exact absurd h.symm (hend (hns n (by simp)).1 _ _)
  | cons m ms ih =>
    obtain ⟨⟨hm, hread⟩, hrest⟩ := List.forall_mem_cons.1 hms
    cases ns with
    | nil =>
      rw [memberTexts_cons, memberTexts_nil, List.nil_append, List.cons_append, List.append_assoc] at h
      exact absurd h (hend hm _ _)
    | cons n ns =>
      obtain ⟨⟨hn, hlegal⟩, hrest'⟩ := List.forall_mem_cons.1 hns
      rw [memberTexts_cons, memberTexts_cons] at h
      simp only [List.cons_append, List.append_assoc, List.cons.injEq, true_and] at h
      have hcolon (k : List Char) : ∀ c ∈ (':' :: k).head?, ¬ IsWordChar c := by
        simp only [List.head?_cons, Option.mem_def, Option.some.injEq, forall_eq']
        decide
      obtain ⟨hname, hrests⟩ := append_inj_of_head hm.2 hn.2 (hcolon _) (hcolon _) h
      simp only [List.cons.injEq, true_and] at hrests
      obtain ⟨htype, htails⟩ := hread _ hlegal _ _ (stops_cons (by simp) _) (stops_cons (by simp) _) hrests
      obtain ⟨rfl, rfl⟩ := ih hrest hrest' (List.cons.inj htails).2
      exact ⟨by rw [show m = n from Prod.ext (String.toList_inj.1 hname) htype], rfl⟩

/-! ## Projections -/

/-- A tree without the projections at its end. -/
def core : Tree → Tree
  | dot b _ => b.core
  | t => t

/-- The projections at the end of a tree. -/
def path : Tree → List String
  | dot b m => b.path ++ [m]
  | _ => []

/-- The text of projections. -/
def dots (ms : List String) : List Char := ms.flatMap fun m => '.' :: m.toList

/-- The text of a tree is that of its core with the projections behind it. -/
theorem text_eq : ∀ t : Tree, t.text = t.core.text ++ dots t.path
  | dot b m => by
    rw [text_dot, text_eq b, core, path, List.append_assoc]
    simp [dots]
  | builtin _ | name _ | pointer _ | slice _ | array _ _ | struct _ | function _ _ | apply _ _ => by
    simp [core, path, dots]

/-- A tree is made of its core and its projections. -/
theorem foldl_path : ∀ t : Tree, t.path.foldl dot t.core = t
  | dot b m => by rw [path, core, List.foldl_append, foldl_path b, List.foldl_cons, List.foldl_nil]
  | builtin _ | name _ | pointer _ | slice _ | array _ _ | struct _ | function _ _ | apply _ _ => rfl

/-- A core has no projections at its end. -/
theorem core_core : ∀ t : Tree, t.core.core = t.core
  | dot b _ => core_core b
  | builtin _ | name _ | pointer _ | slice _ | array _ _ | struct _ | function _ _ | apply _ _ => rfl

/-- A core is no larger than its tree. -/
theorem sizeOf_core_le : ∀ t : Tree, sizeOf t.core ≤ sizeOf t
  | dot b m => by
    have := sizeOf_core_le b
    simp only [core, dot.sizeOf_spec]
    omega
  | builtin _ | name _ | pointer _ | slice _ | array _ _ | struct _ | function _ _ | apply _ _ =>
    Nat.le_refl _

/-- What is projected is the core, to which that may be done. -/
theorem Legal.core {t : Tree} (h : t.Legal) : t.core.Legal ∧ (∀ m ∈ t.path, IsPlain m) ∧
    (t.path ≠ [] → t.core.Projects) := by
  induction h with
  | @dot b m _ hprojects hm ih =>
    obtain ⟨hcore, hpath, hproj⟩ := ih
    refine ⟨hcore, ?_, fun _ => ?_⟩
    · simpa [path, or_imp, forall_and] using ⟨hpath, hm⟩
    · cases b with
      | dot b' m' => exact hproj (by simp [path])
      | _ => exact hprojects
  | builtin => exact ⟨.builtin, by simp [path], by simp [path]⟩
  | name hq hkind => exact ⟨.name hq hkind, by simp [path], by simp [path]⟩
  | pointer h => exact ⟨.pointer h, by simp [path], by simp [path]⟩
  | slice h => exact ⟨.slice h, by simp [path], by simp [path]⟩
  | array h => exact ⟨.array h, by simp [path], by simp [path]⟩
  | struct hnames h => exact ⟨.struct hnames h, by simp [path], by simp [path]⟩
  | function has hr => exact ⟨.function has hr, by simp [path], by simp [path]⟩
  | apply hhead has => exact ⟨.apply hhead has, by simp [path], by simp [path]⟩

/-- Projections are read off their text. -/
theorem dots_inj {ms ns : List String} (hms : ∀ m ∈ ms, IsPlain m) (hns : ∀ n ∈ ns, IsPlain n)
    {k k' : List Char} (hk : Stops k) (hk' : Stops k') (h : dots ms ++ k = dots ns ++ k') :
    ms = ns ∧ k = k' := by
  have hstop {m : String} (ms : List String) {k k' : List Char} (hk : Stops k) : k ≠ dots (m :: ms) ++ k' := by
    rintro rfl
    simp [Stops, dots] at hk
  have hword (ms : List String) {k : List Char} (hk : Stops k) :
      ∀ c ∈ (dots ms ++ k).head?, ¬ IsWordChar c := by
    intro c hc hword
    cases ms with
    | nil => exact not_isNameChar_of_subset (hk c hc) (by decide) (.inl hword)
    | cons m ms =>
      obtain rfl : '.' = c := by simpa [dots] using hc
      exact not_isNameChar_of_mem (by simp) (.inl hword)
  induction ms generalizing ns with
  | nil =>
    cases ns with
    | nil => exact ⟨rfl, h⟩
    | cons n ns => exact absurd h (hstop ns hk)
  | cons m ms ih =>
    cases ns with
    | nil => exact absurd h.symm (hstop ms hk')
    | cons n ns =>
      obtain ⟨hm, hms⟩ := List.forall_mem_cons.1 hms
      obtain ⟨hn, hns⟩ := List.forall_mem_cons.1 hns
      have hrest : m.toList ++ (dots ms ++ k) = n.toList ++ (dots ns ++ k') := by simpa [dots] using h
      obtain ⟨hname, htails⟩ := append_inj_of_head hm.2 hn.2 (hword ms hk) (hword ns hk') hrest
      obtain ⟨rfl, rfl⟩ := ih hms hns htails
      exact ⟨by rw [String.toList_inj.1 hname], rfl⟩

/-- What can stand behind a core: what stops a type, or a projection. -/
def Follows (c : Tree) (k : List Char) : Prop := Stops k ∨ c.Projects ∧ k.head? = some '.'

/-- Behind a word there is a sign that no name has. -/
theorem Follows.head {c : Tree} {k : List Char} (h : Follows c k) :
    ∀ x ∈ k.head?, x ∈ ['.', ']', ';', ',', ')', '>'] := by
  intro x hx
  obtain h | ⟨-, h⟩ := h
  · exact List.mem_cons_of_mem _ (h x hx)
  · obtain rfl : '.' = x := by simpa [h] using hx
    exact List.mem_cons_self

/-- Behind the signs of a word there is one that no name has. -/
theorem head_of_word {c : Tree} {w : String} {tail k : List Char} (h : c.word? = some (w, tail))
    (hk : Follows c k) : ∀ x ∈ (tail ++ k).head?, ¬ IsNameChar x := by
  intro x hx
  have hend (hx : x ∈ k.head?) : ¬ IsNameChar x := not_isNameChar_of_subset (hk.head x hx) (by decide)
  cases c <;> simp only [word?, Option.some.injEq, Prod.mk.injEq, reduceCtorEq] at h <;>
    obtain ⟨rfl, rfl⟩ := h
  · exact hend hx
  · exact hend hx
  · obtain rfl : ' ' = x := by simpa [brace] using hx
    exact not_isNameChar_of_mem (by simp)
  · obtain rfl : '<' = x := by simpa using hx
    exact not_isNameChar_of_mem (by simp)

/-- A word is no sign of another form. -/
theorem text_ne_of_word {c : Tree} (hc : c.Legal) {w : String} {tail k k' : List Char}
    (h : c.word? = some (w, tail)) {x : Char} (hx : x ∈ ['*', '[', '(']) : c.text ++ k ≠ x :: k' := by
  obtain ⟨hne, hchars⟩ := word_chars hc h
  obtain ⟨c₁, rest, hw⟩ := List.exists_cons_of_ne_nil hne
  rw [text_of_word h, hw]
  intro heq
  obtain ⟨rfl, -⟩ := List.cons.inj heq
  have := hchars c₁ (by simp [hw])
  revert this
  simp only [List.mem_cons, List.not_mem_nil, or_false] at hx
  obtain rfl | rfl | rfl := hx <;> decide

/-- A numeral has digits only. -/
theorem isDigit_repr (n : Nat) : ∀ c ∈ (Nat.repr n).toList, c.isDigit = true := by
  intro c hc
  rw [Nat.toList_repr] at hc
  exact Nat.isDigit_of_mem_toDigits (by decide) (by decide) hc

/-- A number is read off its numeral. -/
theorem repr_inj {m n : Nat} (h : (Nat.repr m).toList = (Nat.repr n).toList) : m = n := by
  rw [Nat.toList_repr, Nat.toList_repr] at h
  calc
    m = Nat.ofDigitChars 10 (Nat.toDigits 10 m) 0 := Nat.ofDigitChars_ten_toDigits.symm
    _ = Nat.ofDigitChars 10 (Nat.toDigits 10 n) 0 := by rw [h]
    _ = n := Nat.ofDigitChars_ten_toDigits

/-- What the text of an array length is. -/
theorem lengthText_cases (n : Int) : n = unsized ∧ (Store.lengthText n).toList = ['?'] ∨
    (∃ k : Nat, n = k ∧ (Store.lengthText n).toList = (Nat.repr k).toList) ∨
    ∃ k : Nat, n = Int.negSucc k ∧ (Store.lengthText n).toList = '-' :: (Nat.repr (k + 1)).toList := by
  unfold Store.lengthText
  split
  · exact .inl ⟨‹_›, rfl⟩
  · cases n with
    | ofNat k => exact .inr (.inl ⟨k, rfl, rfl⟩)
    | negSucc k => exact .inr (.inr ⟨k, rfl, by rw [Text.decimal, String.toList_append]; rfl⟩)

/-- An array length is read off its text. -/
theorem lengthText_inj {m n : Int} (h : (Store.lengthText m).toList = (Store.lengthText n).toList) :
    m = n := by
  have hdigit {k : Nat} {c : Char} {rest : List Char} (hk : (Nat.repr k).toList = c :: rest) :
      c.isDigit = true := isDigit_repr k c (by simp [hk])
  obtain ⟨rfl, hm⟩ | ⟨j, rfl, hm⟩ | ⟨j, rfl, hm⟩ := lengthText_cases m <;>
    obtain ⟨hn', hn⟩ | ⟨k, rfl, hn⟩ | ⟨k, rfl, hn⟩ := lengthText_cases n <;> rw [hm, hn] at h
  · exact hn'.symm
  · exact absurd (hdigit h.symm) (by decide)
  · exact absurd (List.cons.inj h).1 (by decide)
  · exact absurd (hdigit h) (by decide)
  · rw [repr_inj h]
  · exact absurd (hdigit h) (by decide)
  · exact absurd (List.cons.inj h).1 (by decide)
  · exact absurd (hdigit h.symm) (by decide)
  · rw [Nat.succ.inj (repr_inj (List.cons.inj h).2)]

/-- The text of an array length does not close the array. -/
theorem bracket_notMem_lengthText (n : Int) : ∀ c ∈ (Store.lengthText n).toList, c ≠ ']' := by
  rintro c hc rfl
  obtain ⟨-, h⟩ | ⟨k, -, h⟩ | ⟨k, -, h⟩ := lengthText_cases n <;> rw [h] at hc
  · simp at hc
  · exact absurd (isDigit_repr k _ hc) (by decide)
  · obtain hc | hc := List.mem_cons.1 hc
    · exact absurd hc (by decide)
    · exact absurd (isDigit_repr (k + 1) _ hc) (by decide)

/-- The parts of a tree. -/
def parts : Tree → List Tree
  | builtin _ | name _ => []
  | pointer e | slice e | array e _ | dot e _ => [e]
  | struct ms => ms.map (·.2)
  | function as r => r :: as
  | apply _ as => as

/-- The parts of a legal tree are legal. -/
theorem Legal.parts {t : Tree} (h : t.Legal) : ∀ p ∈ t.parts, p.Legal := by
  cases h with
  | builtin | name => simp [Tree.parts]
  | pointer h | slice h | array h | dot h => simpa [Tree.parts] using h
  | struct _ h =>
    intro p hp
    obtain ⟨m, hm, rfl⟩ := List.mem_map.1 hp
    exact h m hm
  | function has hr => exact List.forall_mem_cons.2 ⟨hr, has⟩
  | apply _ has => exact has

/-- A part is smaller than its tree. -/
theorem sizeOf_parts {t p : Tree} (h : p ∈ t.parts) : sizeOf p < sizeOf t := by
  cases t with
  | builtin | name => cases h
  | pointer e | slice e | array e | dot e =>
    obtain rfl := List.mem_singleton.1 h
    simp +arith
  | struct ms =>
    obtain ⟨⟨m, t⟩, hm, rfl⟩ := List.mem_map.1 h
    have := List.sizeOf_lt_of_mem hm
    simp only [struct.sizeOf_spec, Prod.mk.sizeOf_spec] at this ⊢
    omega
  | function as r =>
    obtain rfl | h := List.mem_cons.1 h
    · simp +arith
    · have := List.sizeOf_lt_of_mem h
      simp only [function.sizeOf_spec]
      omega
  | apply q as =>
    have := List.sizeOf_lt_of_mem (show p ∈ as from h)
    simp only [apply.sizeOf_spec]
    omega

/-- What the first signs of a tree tell about it. -/
theorem word_cases {t : Tree} {w : String} {tail : List Char} (h : t.word? = some (w, tail)) :
    (tail = [] ∧ ((∃ kind : Builtin, t = .builtin kind ∧ w = kind.name) ∨ t = .name w)) ∨
      (∃ ms, t = .struct ms ∧ tail = ' ' :: ('\x7b' :: (memberTexts ms ++ closingBrace))) ∨
      ∃ as, t = .apply w as ∧ tail = '<' :: listed '>' (texts as) := by
  cases t <;> simp only [word?, Option.some.injEq, Prod.mk.injEq, reduceCtorEq] at h <;>
    obtain ⟨rfl, rfl⟩ := h
  · exact .inl ⟨rfl, .inl ⟨_, rfl, rfl⟩⟩
  · exact .inl ⟨rfl, .inr rfl⟩
  · exact .inr (.inl ⟨_, rfl, rfl⟩)
  · exact .inr (.inr ⟨_, rfl, rfl⟩)

/-- Two words are told apart by their signs and what follows. -/
theorem word_inj {c d : Tree} (hc : c.Legal) (hd : d.Legal) (hparts : ∀ p ∈ c.parts, p.Readable)
    {w w' : String} {tail tail' k k' : List Char} (hw : c.word? = some (w, tail))
    (hw' : d.word? = some (w', tail')) (hk : Follows c k) (hk' : Follows d k')
    (h : c.text ++ k = d.text ++ k') : c = d ∧ k = k' := by
  rw [text_of_word hw, text_of_word hw', List.append_assoc, List.append_assoc] at h
  obtain ⟨heq, htails⟩ := append_inj_of_head (word_chars hc hw).2 (word_chars hd hw').2
    (head_of_word hw hk) (head_of_word hw' hk') h
  obtain rfl := String.toList_inj.1 heq
  have hnone {c : Tree} {k : List Char} (hk : Follows c k) {x : Char} (hx : x ∈ [' ', '<'])
      {rest : List Char} : k ≠ x :: rest := by
    rintro rfl
    have := hk.head x rfl
    simp only [List.mem_cons, List.not_mem_nil, or_false] at hx this
    obtain rfl | rfl := hx <;> revert this <;> decide
  obtain ⟨rfl, hleaf⟩ | ⟨ms, rfl, rfl⟩ | ⟨as, rfl, rfl⟩ := word_cases hw <;>
    obtain ⟨rfl, hleaf'⟩ | ⟨ns, rfl, rfl⟩ | ⟨bs, rfl, rfl⟩ := word_cases hw'
  · refine ⟨?_, htails⟩
    obtain ⟨kind, rfl, rfl⟩ | rfl := hleaf <;> obtain ⟨kind', rfl, hkind⟩ | rfl := hleaf'
    · rw [Builtin.name_inj hkind]
    · cases hd with
      | name _ hne => exact absurd rfl (hne kind)
    · cases hc with
      | name _ hne => exact absurd hkind (hne kind')
    · rfl
  · exact absurd htails (hnone hk (by simp))
  · exact absurd htails (hnone hk (by simp))
  · exact absurd htails.symm (hnone hk' (by simp))
  · cases hc with
    | struct hnames hlegal =>
      cases hd with
      | struct hnames' hlegal' =>
        have hms : ∀ m ∈ ms, IsPlain m.1 ∧ m.2.Readable := fun m hm =>
          ⟨hnames m hm, hparts _ (List.mem_map.2 ⟨m, hm, rfl⟩)⟩
        have hns : ∀ n ∈ ns, IsPlain n.1 ∧ n.2.Legal := fun n hn => ⟨hnames' n hn, hlegal' n hn⟩
        simp only [List.cons_append, List.cons.injEq, true_and, List.append_assoc] at htails
        obtain ⟨rfl, hrest⟩ := memberTexts_inj hms hns htails
        exact ⟨rfl, hrest⟩
  · exact absurd (List.cons.inj htails).1 (by decide)
  · exact absurd htails.symm (hnone hk' (by simp))
  · exact absurd (List.cons.inj htails).1 (by decide)
  · cases hc with
    | apply _ has =>
      cases hd with
      | apply _ hbs =>
        obtain ⟨rfl, hrest⟩ := listed_inj (by simp) (fun a ha => ⟨hparts a ha, has a ha⟩) hbs
          (List.cons.inj htails).2
        exact ⟨rfl, hrest⟩

/-- The cores that begin with a sign of their own. -/
theorem sign_cases {t : Tree} (hcore : t.core = t) (hword : t.word? = none) :
    (∃ e, t = .pointer e) ∨ (∃ e, t = .slice e) ∨ (∃ e n, t = .array e n) ∨ ∃ as r, t = .function as r := by
  cases t with
  | builtin | name | struct | apply => cases hword
  | pointer e => exact .inl ⟨e, rfl⟩
  | slice e => exact .inr (.inl ⟨e, rfl⟩)
  | array e n => exact .inr (.inr (.inl ⟨e, n, rfl⟩))
  | function as r => exact .inr (.inr (.inr ⟨as, r, rfl⟩))
  | dot b m =>
    have := sizeOf_core_le b
    rw [core] at hcore
    rw [hcore, dot.sizeOf_spec] at this
    omega

/-- A tree that starts with a name reads otherwise than one that starts with another sign. -/
theorem text_ne_of_sign {c d : Tree} (hc : c.Legal) {w : String} {tail : List Char}
    (hw : c.word? = some (w, tail)) (hcore : d.core = d) (hd : d.word? = none) (k k' : List Char) :
    c.text ++ k ≠ d.text ++ k' := by
  obtain ⟨e, rfl⟩ | ⟨e, rfl⟩ | ⟨e, n, rfl⟩ | ⟨as, r, rfl⟩ := sign_cases hcore hd
  all_goals exact text_ne_of_word hc hw (by simp)

/-- Behind a tree without members to project, there is the end of a type. -/
theorem Follows.stops {c : Tree} {k : List Char} (h : Follows c k) (hc : ¬ c.Projects) : Stops k :=
  h.resolve_right fun h => hc h.1

/-- A core is read off its text. -/
theorem core_inj {c d : Tree} (hc : c.Legal) (hd : d.Legal) (hcore : c.core = c) (hcore' : d.core = d)
    (hparts : ∀ p ∈ c.parts, p.Readable) {k k' : List Char} (hk : Follows c k) (hk' : Follows d k')
    (h : c.text ++ k = d.text ++ k') : c = d ∧ k = k' := by
  cases hw : c.word? with
  | some =>
    cases hw' : d.word? with
    | some => exact word_inj hc hd hparts hw hw' hk hk' h
    | none => exact absurd h (text_ne_of_sign hc hw hcore' hw' k k')
  | none =>
  cases hw' : d.word? with
  | some => exact absurd h.symm (text_ne_of_sign hd hw' hcore hw k' k)
  | none =>
  have hparts' := hd.parts
  obtain ⟨e, rfl⟩ | ⟨e, rfl⟩ | ⟨e, n, rfl⟩ | ⟨as, r, rfl⟩ := sign_cases hcore hw <;>
    obtain ⟨e', rfl⟩ | ⟨e', rfl⟩ | ⟨e', n', rfl⟩ | ⟨as', r', rfl⟩ := sign_cases hcore' hw' <;>
    simp only [text_pointer, text_slice, text_array, text_function, List.cons_append, List.append_assoc,
      List.nil_append, List.cons.injEq, Char.reduceEq, true_and, false_and] at h <;>
    simp only [parts, List.mem_cons, List.not_mem_nil, or_false, forall_eq, forall_eq_or_imp] at hparts hparts'
  case inl.inl =>
    obtain ⟨rfl, hrest⟩ := hparts e' hparts' _ _ (hk.stops id) (hk'.stops id) h
    exact ⟨rfl, hrest⟩
  case inr.inl.inr.inl =>
    obtain ⟨rfl, hrest⟩ := hparts e' hparts' _ _ (stops_cons (by simp) _) (stops_cons (by simp) _) h
    exact ⟨rfl, (List.cons.inj hrest).2⟩
  case inr.inl.inr.inr.inl =>
    obtain ⟨rfl, hrest⟩ := hparts e' hparts' _ _ (stops_cons (by simp) _) (stops_cons (by simp) _) h
    exact absurd (List.cons.inj hrest).1 (by decide)
  case inr.inr.inl.inr.inl =>
    obtain ⟨rfl, hrest⟩ := hparts e' hparts' _ _ (stops_cons (by simp) _) (stops_cons (by simp) _) h
    exact absurd (List.cons.inj hrest).1 (by decide)
  case inr.inr.inl.inr.inr.inl =>
    obtain ⟨rfl, hrest⟩ := hparts e' hparts' _ _ (stops_cons (by simp) _) (stops_cons (by simp) _) h
    simp only [List.cons.injEq, true_and] at hrest
    obtain ⟨hlength, hrest⟩ := append_inj_of_head (bracket_notMem_lengthText n) (bracket_notMem_lengthText n')
      (by simp) (by simp) hrest
    rw [lengthText_inj hlength]
    exact ⟨rfl, (List.cons.inj hrest).2⟩
  case inr.inr.inr.inr.inr.inr =>
    obtain ⟨rfl, hrest⟩ := listed_inj (by simp) (fun a ha => ⟨hparts.2 a ha, hc.parts a (by simp [parts, ha])⟩)
      hparts'.2 h
    obtain ⟨rfl, hend⟩ := hparts.1 r' hparts'.1 _ _ (hk.stops id) (hk'.stops id)
      (List.append_cancel_left hrest)
    exact ⟨rfl, hend⟩

/-- What follows a core inside a type. -/
theorem follows_dots {t : Tree} (ht : t.Legal) {k : List Char} (hk : Stops k) :
    Follows t.core (dots t.path ++ k) := by
  cases hpath : t.path with
  | nil => exact .inl hk
  | cons m ms => exact .inr ⟨ht.core.2.2 (by simp [hpath]), rfl⟩

/-- Every tree is read off its text. The induction is on the size of the tree: what is read after its
first sign is smaller. -/
theorem readable {t : Tree} (ht : t.Legal) : t.Readable := by
  induction hsize : sizeOf t using Nat.strong_induction_on generalizing t with
  | _ size ih =>
  subst hsize
  intro u hu k k' hk hk' h
  obtain ⟨hcore, hpath, -⟩ := ht.core
  obtain ⟨hcore', hpath', -⟩ := hu.core
  have hparts : ∀ p ∈ t.core.parts, p.Readable := fun p hp =>
    ih _ (Nat.lt_of_lt_of_le (sizeOf_parts hp) (sizeOf_core_le t)) (hcore.parts p hp) rfl
  rw [text_eq t, text_eq u, List.append_assoc, List.append_assoc] at h
  obtain ⟨hcores, hrest⟩ := core_inj hcore hcore' (core_core t) (core_core u) hparts
    (follows_dots ht hk) (follows_dots hu hk') h
  obtain ⟨hpaths, hends⟩ := dots_inj hpath hpath' hk hk' hrest
  exact ⟨by rw [← foldl_path t, ← foldl_path u, hcores, hpaths], hends⟩

/-- Trees with one text are one tree. -/
theorem text_inj {t u : Tree} (ht : t.Legal) (hu : u.Legal) (h : t.text = u.text) : t = u :=
  (readable ht u hu [] [] (by simp [Stops]) (by simp [Stops]) (by rw [h])).1

end Tree

end Qll.Types
